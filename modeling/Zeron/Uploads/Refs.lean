import Zeron.Data.Trim
import Zeron.Uploads.Staging

namespace Zeron.Uploads

open Zeron.Data

/-! # A ref names the bytes committed under its id and name

A ref goes through a message as a line of its own and comes back as it was unless its name
breaks the line or ends in white space.  It resolves to the file of its target; that file holds
what was last committed under the id and the name as long as nothing else lands there.
-/

variable {id name : String}

/-! ## Ids -/

theorem validId_chars (valid : validId id = true) {c : Char} (member : c ∈ id.toList) :
    isSafe c = true ∧ c ≠ '/' ∧ c ≠ '.' := by
  simp only [validId, Bool.and_eq_true, List.all_eq_true] at valid
  have charset := valid.2 c member
  simp only [Bool.or_eq_true, beq_iff_eq] at charset
  rcases charset with (alphanum | rfl) | rfl
  · refine ⟨by simp [isSafe, alphanum], ?_, ?_⟩ <;>
      · rintro rfl
        exact absurd alphanum (by decide)
  · decide
  · decide

theorem validId_ne_nil (valid : validId id = true) : id.toList ≠ [] := by
  simp only [validId, Bool.and_eq_true, decide_eq_true_eq] at valid
  intro empty
  exact valid.1.1 (String.toList_injective (by simpa using empty))

theorem fileNameOf_plain {part : List Char} (some : part ≠ [])
    (plain : ∀ c ∈ part, c ≠ '/' ∧ c ≠ '.') : fileNameOf part = .some part := by
  have whole : part.splitOn '/' = [part] := splitOn_plain fun member => (plain _ member).1 rfl
  have dotless : ∀ dots : List Char, '.' ∈ dots → part ≠ dots := by
    rintro dots member rfl
    exact (plain '.' member).2 rfl
  rw [fileNameOf, whole]
  simp [some, dotless ['.'] (by simp), dotless ['.', '.'] (by simp)]

/-- What is cut from an accepted id is a safe name already. -/
theorem sanitize_id (valid : validId id = true) :
    sanitize (id.toList.take 8) = id.toList.take 8 := by
  have chars : ∀ c ∈ id.toList.take 8, isSafe c = true ∧ c ≠ '/' ∧ c ≠ '.' :=
    fun c member => validId_chars valid (List.mem_of_mem_take member)
  have some : id.toList.take 8 ≠ [] := by simpa using validId_ne_nil valid
  have cleaned : (id.toList.take 8).map (fun c => if isSafe c then c else '_') =
      id.toList.take 8 := by
    conv_rhs => rw [← List.map_id (id.toList.take 8)]
    apply List.map_congr_left
    intro c member
    simp [(chars c member).1]
  have short : (id.toList.take 8).reverse.length ≤ 80 := by
    simp only [List.length_reverse, List.length_take]
    omega
  rw [sanitize, fileNameOf_plain some fun c member => (chars c member).2, Option.getD_some, cleaned,
    List.take_of_length_le short, List.reverse_reverse, if_neg some]

theorem pendingTarget_eq (valid : validId id = true) (name : String) :
    pendingTarget id name = committedName id name := by
  rw [pendingTarget, committedName, sanitize_id valid]

/-! ## Refs in text -/

theorem pendingRef_toList (id name : String) :
    (pendingRef id name).toList = pendingRefPrefix.toList ++ (id.toList ++ '/' :: name.toList) := by
  simp [pendingRef, String.toList_append]

theorem parsePendingRef_pendingRef (valid : validId id = true) (name : String) :
    parsePendingRef (pendingRef id name) = if name = "" then none else some (id, name) := by
  have inside : ∀ c ∈ id.toList, (decide (c ≠ '/')) = true :=
    fun c member => by simpa using (validId_chars valid member).2.1
  have cut : (id.toList ++ '/' :: name.toList).takeWhile (fun c => decide (c ≠ '/')) = id.toList := by
    rw [List.takeWhile_append_of_pos inside]
    simp
  have rest : (pendingRef id name).toList.dropPrefix? pendingRefPrefix.toList =
      some (id.toList ++ '/' :: name.toList) := by
    rw [List.dropPrefix?_eq_some_iff, pendingRef_toList]
    exact ⟨_, rfl, by simp⟩
  rw [parsePendingRef, rest, Option.bind_some, cut]
  simp only [List.drop_left, validId_ne_nil valid, not_false_eq_true, true_and, ne_eq,
    String.ofList_toList]
  by_cases empty : name = ""
  · simp [empty]
  · have some : name.toList ≠ [] := by simpa using empty
    simp [empty, some]

theorem pendingRefsIn_append (front back : String) :
    Command.pendingRefsIn (front ++ "\n" ++ back) =
      Command.pendingRefsIn front ++ Command.pendingRefsIn back := by
  have split : (front ++ "\n" ++ back).toList = front.toList ++ '\n' :: back.toList := by
    simp [String.toList_append]
  rw [Command.pendingRefsIn, split, splitOn_append_sep, List.filterMap_append]
  rfl

/-- A message names the refs of its lines. -/
theorem pendingRefsIn_lines (lines : List String) :
    Command.pendingRefsIn ("\n".intercalate lines) = lines.flatMap Command.pendingRefsIn := by
  induction lines with
  | nil =>
      rw [String.intercalate_nil]
      rfl
  | cons line rest ih =>
      cases rest with
      | nil => simp
      | cons next others =>
          rw [String.intercalate_cons_cons, pendingRefsIn_append, ih]
          rfl

/-- The name keeps its line and its end. -/
def Plain (name : String) : Prop :=
  '\n' ∉ name.toList ∧ ∀ last ∈ name.toList.getLast?, Registry.SidebarM.isWhitespace last = false

theorem pendingRefsIn_refLine (valid : validId id = true) (plain : Plain name) :
    Command.pendingRefsIn ("- " ++ pendingRef id name) = [pendingRef id name] := by
  have line : ("- " ++ pendingRef id name).toList = '-' :: ' ' :: (pendingRef id name).toList := by
    simp [String.toList_append]
  have unbroken : '\n' ∉ ("- " ++ pendingRef id name).toList := by
    have idPlain : '\n' ∉ id.toList := fun member =>
      absurd (validId_chars valid member).1 (by decide)
    rw [line, pendingRef_toList]
    simp [pendingRefPrefix, idPlain, plain.1]
  have trimmed : Command.trim (pendingRef id name).toList = (pendingRef id name).toList := by
    apply @trimBy_of_tight _ Registry.SidebarM.isWhitespace
    constructor
    · rw [pendingRef_toList]
      intro c first
      cases first
      rfl
    · rw [pendingRef_toList, ← List.append_assoc]
      intro c last
      rw [List.getLast?_append, List.getLast?_cons] at last
      cases ending : name.toList.getLast? with
      | none =>
          rw [ending] at last
          cases last
          rfl
      | some final =>
          rw [ending] at last
          cases last
          exact plain.2 final ending
  have pending : Command.isPendingRef (pendingRef id name).toList = true := by
    rw [Command.isPendingRef, List.isPrefixOf_iff_prefix, pendingRef_toList]
    exact List.prefix_append _ _
  have dashed : (Command.trimStart ("- " ++ pendingRef id name).toList).dropPrefix? "- ".toList =
      some (pendingRef id name).toList := by
    rw [line, Command.trimStart, List.dropWhile_cons_of_neg (by decide)]
    exact @List.dropPrefix?_append_of_beq _ _ ['-', ' '] _ _ (by decide)
  rw [Command.pendingRefsIn, splitOn_plain unbroken]
  simp only [List.filterMap_cons, dashed, trimmed, pending, List.filterMap_nil, if_true,
    String.ofList_toList]

/-! ## Runs -/

section runs

variable {decode : List Char → Option Bytes} {store after : Store} {action : Action}

/-- The file a step leaves bytes in, and these bytes. -/
def Store.lands (decode : List Char → Option Bytes) (store : Store) : Action → Option (String × Bytes)
  | .commit uploadId fileName =>
      ((store.assembled decode uploadId).filter fun bytes => bytes.length ≤ maxBytes).map
        fun bytes => (committedName uploadId fileName, bytes)
  | .crashCommit uploadId fileName count =>
      ((store.assembled decode uploadId).filter fun bytes => bytes.length ≤ maxBytes).map
        fun bytes => (committedName uploadId fileName, bytes.take count)
  | .append .. | .crashAppend .. => none

/-- What else than a completed commit of the ref leaves bytes in its file leaves those committed
under it. -/
def OnlyOwn (decode : List Char → Option Bytes) (ref : String × String) (store : Store)
    (action : Action) : Prop :=
  action = .commit ref.1 ref.2 ∨
    ∀ bytes, store.lands decode action = some (committedName ref.1 ref.2, bytes) →
      store.committed ref = some bytes

theorem append_files (store : Store) (uploadId data : String) (seq : Option Nat)
    (expired : List String) (landing : Bytes → Bytes) :
    (store.append uploadId data seq expired landing).files = store.files ∧
      (store.append uploadId data seq expired landing).committed = store.committed := by
  have prepared : (store.prepare uploadId seq expired).1.files = store.files ∧
      (store.prepare uploadId seq expired).1.committed = store.committed := ⟨rfl, rfl⟩
  rw [Store.append]
  generalize store.prepare uploadId seq expired = ready at prepared
  by_cases valid : validId uploadId = true
  · rw [if_pos valid]
    by_cases far : 1000000 < ready.2.2 <;> simpa [far] using prepared
  · rw [if_neg valid]
    exact ⟨rfl, rfl⟩

/-- A step leaves the files as they are, or bytes in one of them; a completed commit records
them under its id and name. -/
theorem step_lands (taken : store.step decode action = some after) :
    (store.lands decode action = none ∧ after.files = store.files ∧
      after.committed = store.committed) ∨
    ∃ target bytes, store.lands decode action = some (target, bytes) ∧
      after.files = Function.update store.files target (some bytes) ∧
      ((∃ uploadId fileName, action = .commit uploadId fileName ∧
          target = committedName uploadId fileName ∧
          after.committed = Function.update store.committed (uploadId, fileName) (some bytes)) ∨
        (∀ uploadId fileName, action ≠ .commit uploadId fileName) ∧
          after.committed = store.committed) := by
  cases action with
  | append uploadId data seq expired =>
      cases taken
      exact .inl ⟨rfl, append_files ..⟩
  | crashAppend uploadId data seq expired count =>
      cases taken
      exact .inl ⟨rfl, append_files ..⟩
  | commit uploadId fileName =>
      cases taken
      cases joined : store.assembled decode uploadId with
      | none => exact .inl ⟨by simp [Store.lands, joined], by simp [Store.commit, joined]⟩
      | some bytes =>
          by_cases large : maxBytes < bytes.length
          · exact .inl ⟨by simp [Store.lands, joined, large], by simp [Store.commit, joined, large]⟩
          · have fits : bytes.length ≤ maxBytes := Nat.le_of_not_lt large
            refine .inr ⟨committedName uploadId fileName, bytes,
              by simp [Store.lands, joined, fits], by simp [Store.commit, joined, large], .inl ?_⟩
            exact ⟨uploadId, fileName, rfl, rfl, by simp [Store.commit, joined, large]⟩
  | crashCommit uploadId fileName count =>
      cases joined : store.assembled decode uploadId with
      | none => simp [Store.step, Store.crashCommit, joined] at taken
      | some bytes =>
          by_cases large : maxBytes < bytes.length
          · simp [Store.step, Store.crashCommit, joined, large] at taken
          · have fits : bytes.length ≤ maxBytes := Nat.le_of_not_lt large
            simp only [Store.step, Store.crashCommit, joined, if_neg large,
              Option.some.injEq] at taken
            subst taken
            exact .inr ⟨committedName uploadId fileName, bytes.take count,
              by simp [Store.lands, joined, fits], rfl,
              .inr ⟨fun _ _ same => Action.noConfusion same, rfl⟩⟩

/-- The file of a ref holds what is committed under it. -/
def Store.HoldsOwn (ref : String × String) (store : Store) : Prop :=
  store.files (committedName ref.1 ref.2) = store.committed ref

theorem step_holdsOwn {ref : String × String} (own : store.HoldsOwn ref)
    (allowed : OnlyOwn decode ref store action) (taken : store.step decode action = some after) :
    after.HoldsOwn ref := by
  unfold Store.HoldsOwn at own ⊢
  rcases step_lands taken with
    ⟨-, files, committed⟩ | ⟨target, bytes, landed, files, completed | ⟨other, committed⟩⟩
  · rw [files, committed, own]
  · obtain ⟨uploadId, fileName, rfl, rfl, committed⟩ := completed
    rw [files, committed]
    by_cases same : (uploadId, fileName) = ref
    · subst same
      simp
    · rw [@Function.update_of_ne _ _ _ ref _ (Ne.symm same)]
      by_cases hit : committedName ref.1 ref.2 = committedName uploadId fileName
      · rcases allowed with itself | kept
        · cases itself
          exact absurd rfl same
        · rw [hit, Function.update_self, kept bytes (by rw [landed, hit])]
      · rw [Function.update_of_ne hit, own]
  · rw [files, committed]
    by_cases hit : committedName ref.1 ref.2 = target
    · rcases allowed with itself | kept
      · exact absurd itself (other _ _)
      · rw [hit, Function.update_self, kept bytes (by rw [landed, hit])]
    · rw [Function.update_of_ne hit, own]

/-- A ref on a line of its own is recovered; it resolves only once its bytes are committed, and
then to a file with the bytes last committed under its id and name. -/
theorem queued_attachment (valid : validId id = true) (plain : Plain name)
    (run : Reaches (Store.step decode) (OnlyOwn decode (id, name)) Store.start store) :
    (∀ front back : List String,
      Command.pendingRefsIn ("\n".intercalate (front ++ ("- " ++ pendingRef id name) :: back)) =
        front.flatMap Command.pendingRefsIn ++
          pendingRef id name :: back.flatMap Command.pendingRefsIn) ∧
    (store.committed (id, name) = none → store.resolvePending (pendingRef id name) = none) ∧
    ∀ file, store.resolvePending (pendingRef id name) = some file →
      ∃ bytes, store.files file = some bytes ∧ store.committed (id, name) = some bytes := by
  have own : store.HoldsOwn (id, name) := run.keeps rfl fun _ _ _ => step_holdsOwn
  have resolves : store.resolvePending (pendingRef id name) =
      if name = "" then none
      else if (store.committed (id, name)).isSome then some (committedName id name) else none := by
    rw [Store.resolvePending, parsePendingRef_pendingRef valid]
    split
    · rfl
    · rw [Option.bind_some, pendingTarget_eq valid, ← show store.files _ = _ from own]
  refine ⟨fun front back => ?_, fun absent => ?_, fun file found => ?_⟩
  · rw [pendingRefsIn_lines, List.flatMap_append, List.flatMap_cons,
      pendingRefsIn_refLine valid plain]
    rfl
  · simp [resolves, absent]
  · rw [resolves] at found
    split at found
    · cases found
    · obtain ⟨present, same⟩ := Option.ite_none_right_eq_some.mp found
      cases same
      obtain ⟨bytes, committed⟩ := Option.isSome_iff_exists.mp present
      exact ⟨bytes, own.trans committed, committed⟩

end runs

/-- Base64, as far as the texts below go. -/
def decodeHi (text : List Char) : Option Bytes :=
  if text = "aGk=".toList then some [104, 105] else if text = "aG8=".toList then some [104, 111]
  else none

/-- Appends, and commits of the ref. -/
def ownAction (ref : String × String) : Action → Bool
  | .append .. | .crashAppend .. => true
  | .commit uploadId fileName => (uploadId, fileName) == ref
  | .crashCommit .. => false

theorem onlyOwn_of_ownAction {decode : List Char → Option Bytes} {ref : String × String}
    {store : Store} {action : Action} (own : ownAction ref action = true) :
    OnlyOwn decode ref store action := by
  cases action with
  | append | crashAppend => exact .inr fun _ landed => by cases landed
  | commit uploadId fileName =>
      rw [ownAction, beq_iff_eq] at own
      subst own
      exact .inl rfl
  | crashCommit => cases own

theorem queued_attachment_photo :
    Command.pendingRefsIn "see\n- pending://abcd1234-rest/my photo (1).png" =
        ["pending://abcd1234-rest/my photo (1).png"] ∧
      ∃ store : Store, store.resolvePending (pendingRef "abcd1234-rest" "my photo (1).png") =
        some "abcd1234-my_photo__1_.png" ∧
        ∃ bytes, store.files "abcd1234-my_photo__1_.png" = some bytes ∧
          store.committed ("abcd1234-rest", "my photo (1).png") = some bytes := by
  have ran : (runAll (Store.step decodeHi)
      (fun _ => ownAction ("abcd1234-rest", "my photo (1).png")) Store.start
      [.append "abcd1234-rest" "aGk=" (some 0) [], .commit "abcd1234-rest" "my photo (1).png"]).map
        (fun store => store.resolvePending (pendingRef "abcd1234-rest" "my photo (1).png")) =
      some (some "abcd1234-my_photo__1_.png") := by
    decide +kernel
  obtain ⟨store, reached, resolved⟩ := Option.map_eq_some_iff.mp ran
  have run := (reaches_of_runAll reached).mono fun s action =>
    @onlyOwn_of_ownAction decodeHi _ s action
  have plain : Plain "my photo (1).png" := by
    constructor
    · decide
    · intro last ending
      cases ending
      rfl
  obtain ⟨recovered, -, lands⟩ := queued_attachment (by decide) plain run
  exact ⟨recovered ["see"] [], store, resolved, lands _ resolved⟩

/-- A crash in the first write of a file leaves a ref resolving to a part of it. -/
theorem not_queued_attachment :
    ¬ ∀ (decode : List Char → Option Bytes) (id name : String) (store : Store),
      validId id = true → Reaches (Store.step decode) (fun _ _ => True) Store.start store →
      store.committed (id, name) = none → store.resolvePending (pendingRef id name) = none := by
  intro claim
  have ran : (runAll (Store.step decodeHi) (fun _ _ => true) Store.start
      [.append "abcd1234" "aGk=" (some 0) [], .crashCommit "abcd1234" "a.png" 1]).map
        (fun store => (store.resolvePending (pendingRef "abcd1234" "a.png"),
          store.committed ("abcd1234", "a.png"))) = some (some "abcd1234-a.png", none) := by
    decide +kernel
  obtain ⟨store, reached, same⟩ := Option.map_eq_some_iff.mp ran
  obtain ⟨resolved, absent⟩ := Prod.mk.inj same
  have run := (reaches_of_runAll reached).mono fun _ _ _ => trivial
  have unresolved := claim decodeHi "abcd1234" "a.png" store (by decide) run absent
  rw [resolved] at unresolved
  cases unresolved

end Zeron.Uploads
