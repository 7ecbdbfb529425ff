import Mathlib
import Zeron.Markdown.Tree

namespace Zeron.Markdown

/-! # Runs, merged and linked

Merging and linking cut the text of a block anew and never change it.  A run stays as it is
under linking where its text starts no URL but a bare scheme at its end, and what linking
leaves unlinked is such a run again.
-/

variable {isAlphanumeric : Char → Bool} {text rest url : Text} {style : InlineStyle}
  {runs : List InlineRun} {place : Nat}

def textOf (runs : List InlineRun) : Text := runs.flatMap InlineRun.text

theorem textOf_append (front back : List InlineRun) :
    textOf (front ++ back) = textOf front ++ textOf back := List.flatMap_append

theorem textOf_textRun (text : Text) (style : InlineStyle) : textOf (textRun text style) = text := by
  unfold textRun
  split
  · rename_i empty
    exact empty.symm
  · exact List.append_nil text

theorem textRun_of_ne_nil (written : text ≠ []) : textRun text style = [⟨text, style⟩] :=
  if_neg written

/-! ## Where a URL starts -/

theorem isPrefixOf_take {needle : Text} {size : Nat} (enough : needle.length ≤ size) (text : Text) :
    needle.isPrefixOf (text.take size) = needle.isPrefixOf text := by
  rw [Bool.eq_iff_iff, List.isPrefixOf_iff_prefix, List.isPrefixOf_iff_prefix, List.prefix_take_iff]
  exact and_iff_left enough

theorem schemeLength_pos (url : Text) : 0 < schemeLength url := by
  unfold schemeLength
  split <;> decide

/-- A URL starts with its scheme. -/
theorem schemeLength_le_length
    (scheme : (http.isPrefixOf url || https.isPrefixOf url) = true) :
    schemeLength url ≤ url.length := by
  unfold schemeLength
  split
  · rename_i secure
    exact (List.isPrefixOf_iff_prefix.mp secure).length_le
  · rename_i other
    rw [Bool.eq_false_iff.mpr other, Bool.or_false] at scheme
    exact (List.isPrefixOf_iff_prefix.mp scheme).length_le

theorem findUrlFrom_spec {before : Option Char} {skip : Nat}
    (found : findUrlFrom isAlphanumeric before skip text = some place) :
    skip ≤ place ∧
      (http.isPrefixOf (text.drop place) || https.isPrefixOf (text.drop place)) = true := by
  induction text generalizing before skip place with
  | nil =>
      rw [findUrlFrom] at found
      cases found
  | cons c rest ih =>
      have later : ∀ {skip place : Nat},
          (findUrlFrom isAlphanumeric (some c) skip rest).map (· + 1) = some place →
          skip + 1 ≤ place ∧ (http.isPrefixOf ((c :: rest).drop place) ||
            https.isPrefixOf ((c :: rest).drop place)) = true := by
        intro skip place mapped
        obtain ⟨before, found, rfl⟩ := Option.map_eq_some_iff.mp mapped
        obtain ⟨after, scheme⟩ := ih found
        exact ⟨Nat.succ_le_succ after, scheme⟩
      cases skip with
      | succ skip => exact later found
      | zero =>
          rw [findUrlFrom] at found
          split at found
          · split at found
            · rename_i viable
              cases found
              exact ⟨Nat.zero_le _, (Bool.and_eq_true _ _ ▸ viable).1⟩
            · exact ⟨Nat.zero_le _, (later found).2⟩
          · exact ⟨Nat.zero_le _, (later found).2⟩

theorem findUrlStart_scheme (found : findUrlStart isAlphanumeric text = some place) :
    schemeLength (text.drop place) ≤ (text.drop place).length :=
  schemeLength_le_length (findUrlFrom_spec found).2

/-- Before the first URL there is none. -/
theorem findUrlFrom_take_place {before : Option Char} {skip : Nat}
    (found : findUrlFrom isAlphanumeric before skip text = some place) :
    findUrlFrom isAlphanumeric before skip (text.take place) = none := by
  induction text generalizing before skip place with
  | nil =>
      rw [findUrlFrom] at found
      cases found
  | cons c rest ih =>
      cases place with
      | zero => rfl
      | succ place =>
          have later : ∀ {skip : Nat},
              (findUrlFrom isAlphanumeric (some c) skip rest).map (· + 1) = some (place + 1) →
              (findUrlFrom isAlphanumeric (some c) skip (rest.take place)).map (· + 1) = none := by
            intro skip mapped
            obtain ⟨before, found, same⟩ := Option.map_eq_some_iff.mp mapped
            cases Nat.succ.inj same
            rw [ih found, Option.map_none]
          rw [List.take_succ_cons]
          cases skip with
          | succ skip => exact later found
          | zero =>
              rw [findUrlFrom] at found ⊢
              split at found
              · rename_i started
                split at found
                · cases found
                · rename_i unviable
                  have after : 3 ≤ place := by
                    obtain ⟨middle, isMiddle, same⟩ := Option.map_eq_some_iff.mp found
                    cases Nat.succ.inj same
                    exact (findUrlFrom_spec isMiddle).1
                  have still : "http".toList.isPrefixOf (c :: rest.take place) = true := by
                    rw [← List.take_succ_cons, isPrefixOf_take (Nat.succ_le_succ after)]
                    exact started
                  have never : ¬ ((http.isPrefixOf (c :: rest.take place) ||
                      https.isPrefixOf (c :: rest.take place)) &&
                      before.all fun c => !isAlphanumeric c) = true := by
                    intro viable
                    apply unviable
                    rw [Bool.and_eq_true, Bool.or_eq_true, List.isPrefixOf_iff_prefix,
                      List.isPrefixOf_iff_prefix] at viable ⊢
                    have whole : c :: rest.take place <+: c :: rest :=
                      List.cons_prefix_cons.mpr ⟨rfl, List.take_prefix place rest⟩
                    exact ⟨viable.1.imp (·.trans whole) (·.trans whole), viable.2⟩
                  rw [if_pos still, if_neg never]
                  exact later found
              · rename_i other
                have still : ¬ "http".toList.isPrefixOf (c :: rest.take place) = true := by
                  intro started
                  apply other
                  rw [List.isPrefixOf_iff_prefix] at started ⊢
                  exact started.trans (List.cons_prefix_cons.mpr ⟨rfl, List.take_prefix _ rest⟩)
                rw [if_neg still]
                exact later found

/-- Where the first URL starts is seen once its scheme is there. -/
theorem findUrlFrom_take_scheme {before : Option Char} {skip size : Nat}
    (found : findUrlFrom isAlphanumeric before skip text = some place)
    (enough : place + schemeLength (text.drop place) ≤ size) :
    findUrlFrom isAlphanumeric before skip (text.take size) = some place := by
  induction text generalizing before skip place size with
  | nil =>
      rw [findUrlFrom] at found
      cases found
  | cons c rest ih =>
      have some : 0 < size := by
        have positive := schemeLength_pos ((c :: rest).drop place)
        omega
      obtain ⟨size, rfl⟩ := Nat.exists_eq_succ_of_ne_zero some.ne'
      have later : ∀ {skip : Nat},
          (findUrlFrom isAlphanumeric (.some c) skip rest).map (· + 1) = .some place →
          (findUrlFrom isAlphanumeric (.some c) skip (rest.take size)).map (· + 1) = .some place := by
        intro skip mapped
        obtain ⟨before, isFound, rfl⟩ := Option.map_eq_some_iff.mp mapped
        rw [List.drop_succ_cons] at enough
        have seen := ih isFound (show before + schemeLength (rest.drop before) ≤ size by omega)
        rw [seen, Option.map_some]
      rw [List.take_succ_cons]
      cases skip with
      | succ skip => exact later found
      | zero =>
          rw [findUrlFrom] at found ⊢
          split at found
          · rename_i started
            split at found
            · rename_i viable
              cases found
              have seen : schemeLength (c :: rest) ≤ size + 1 := by
                rw [List.drop_zero] at enough
                omega
              have whole : ∀ needle : Text, needle.length ≤ schemeLength (c :: rest) →
                  needle.isPrefixOf (c :: rest.take size) = needle.isPrefixOf (c :: rest) := by
                intro needle short
                rw [← List.take_succ_cons, isPrefixOf_take (short.trans seen)]
              have four : "http".toList.length ≤ schemeLength (c :: rest) := by
                unfold schemeLength
                split <;> decide
              rw [Bool.and_eq_true, Bool.or_eq_true] at viable
              have scheme : (http.isPrefixOf (c :: rest.take size) ||
                  https.isPrefixOf (c :: rest.take size)) = true := by
                by_cases secure : https.isPrefixOf (c :: rest) = true
                · rw [whole https (by rw [schemeLength, if_pos secure]), secure,
                    Bool.or_true]
                · rw [whole http (by rw [schemeLength, if_neg secure]),
                    viable.1.resolve_right secure, Bool.true_or]
              rw [if_pos (whole _ four ▸ started), if_pos]
              rw [Bool.and_eq_true]
              exact ⟨scheme, viable.2⟩
            · rename_i unviable
              have after : 4 ≤ place := by
                obtain ⟨middle, isMiddle, rfl⟩ := Option.map_eq_some_iff.mp found
                exact Nat.succ_le_succ (findUrlFrom_spec isMiddle).1
              have seven : 7 ≤ schemeLength ((c :: rest).drop place) := by
                unfold schemeLength
                split <;> decide
              have whole : ∀ needle : Text, needle.length ≤ 8 →
                  needle.isPrefixOf (c :: rest.take size) = needle.isPrefixOf (c :: rest) := by
                intro needle short
                rw [← List.take_succ_cons, isPrefixOf_take (by omega)]
              rw [whole "http".toList (by decide), whole http (by decide),
                whole https (by decide), if_pos started, if_neg unviable]
              exact later found
          · rename_i other
            have still : ¬ "http".toList.isPrefixOf (c :: rest.take size) = true := by
              intro started
              apply other
              rw [List.isPrefixOf_iff_prefix] at started ⊢
              exact started.trans (List.cons_prefix_cons.mpr ⟨rfl, List.take_prefix _ rest⟩)
            rw [if_neg still]
            exact later found

/-! ## The pieces of one run -/

section pieces

variable (isAlphanumeric)

theorem pushTextAutolinkedFor_succ {fuel : Nat} (enough : rest.length ≤ fuel) :
    pushTextAutolinkedFor isAlphanumeric (fuel + 1) rest style =
      pushTextAutolinkedFor isAlphanumeric fuel rest style := by
  induction fuel generalizing rest with
  | zero =>
      rw [List.length_eq_zero_iff.mp (Nat.le_zero.mp enough)]
      rfl
  | succ fuel ih =>
      rw [pushTextAutolinkedFor]
      conv_rhs => rw [pushTextAutolinkedFor]
      cases found : findUrlStart isAlphanumeric rest with
      | none => rfl
      | some place =>
          dsimp only
          have scheme := findUrlStart_scheme found
          have positive := schemeLength_pos (rest.drop place)
          rw [List.length_drop] at scheme
          split
          · rw [ih]
            rw [List.length_drop, List.length_drop]
            omega
          · rename_i longer
            rw [ih]
            rw [List.length_drop, List.length_drop]
            omega

theorem pushTextAutolinkedFor_enough {fuel : Nat} (enough : rest.length ≤ fuel) :
    pushTextAutolinkedFor isAlphanumeric fuel rest style =
      pushTextAutolinked isAlphanumeric rest style := by
  induction fuel, enough using Nat.le_induction with
  | base => rfl
  | succ fuel enough ih => rw [pushTextAutolinkedFor_succ isAlphanumeric enough, ih]

theorem pushTextAutolinked_none (quiet : findUrlStart isAlphanumeric text = none) :
    pushTextAutolinked isAlphanumeric text style = textRun text style := by
  unfold pushTextAutolinked
  cases size : text.length with
  | zero => rfl
  | succ fuel => rw [pushTextAutolinkedFor, quiet]

theorem pushTextAutolinked_some (found : findUrlStart isAlphanumeric text = some place) :
    pushTextAutolinked isAlphanumeric text style =
      if bareUrlLen (text.drop place) ≤ schemeLength (text.drop place) then
        textRun (text.take (place + schemeLength (text.drop place))) style ++
          pushTextAutolinked isAlphanumeric
            ((text.drop place).drop (schemeLength (text.drop place))) style
      else
        textRun (text.take place) style ++
          textRun ((text.drop place).take (bareUrlLen (text.drop place)))
            { style with link := some ((text.drop place).take (bareUrlLen (text.drop place))) } ++
          pushTextAutolinked isAlphanumeric
            ((text.drop place).drop (bareUrlLen (text.drop place))) style := by
  have scheme := findUrlStart_scheme found
  have positive := schemeLength_pos (text.drop place)
  rw [List.length_drop] at scheme
  rw [pushTextAutolinked]
  cases size : text.length with
  | zero => omega
  | succ fuel =>
      rw [pushTextAutolinkedFor, found]
      dsimp only
      split
      · rw [pushTextAutolinkedFor_enough isAlphanumeric]
        rw [List.length_drop, List.length_drop]
        omega
      · rw [pushTextAutolinkedFor_enough isAlphanumeric]
        rw [List.length_drop, List.length_drop]
        omega

theorem shorter_of_found (found : findUrlStart isAlphanumeric text = some place) {size : Nat}
    (positive : 0 < size) : ((text.drop place).drop size).length < text.length := by
  have scheme := findUrlStart_scheme found
  have some := schemeLength_pos (text.drop place)
  rw [List.length_drop] at scheme
  rw [List.length_drop, List.length_drop]
  omega

theorem bareUrlLen_le (url : Text) : bareUrlLen url ≤ url.length := by
  have trimmed : ∀ front : Text, (trimUrl front).length ≤ front.length := by
    intro front
    induction front with
    | nil => exact Nat.le_refl 0
    | cons last front ih =>
        rw [trimUrl]
        split
        · exact ih.trans (Nat.le_succ _)
        · exact Nat.le_refl _
  have within := (List.takeWhile_prefix (l := url) fun c => !endsUrl c).length_le
  have shorter := trimmed (url.takeWhile fun c => !endsUrl c).reverse
  rw [List.length_reverse] at shorter
  exact shorter.trans within

/-- Linking cuts the text and keeps it. -/
theorem textOf_pushTextAutolinked (text : Text) (style : InlineStyle) :
    textOf (pushTextAutolinked isAlphanumeric text style) = text := by
  induction size : text.length using Nat.strong_induction_on generalizing text with
  | _ size ih =>
      subst size
      cases found : findUrlStart isAlphanumeric text with
      | none => rw [pushTextAutolinked_none _ found, textOf_textRun]
      | some place =>
          rw [pushTextAutolinked_some _ found]
          have positive := schemeLength_pos (text.drop place)
          split
          · rw [textOf_append, textOf_textRun,
              ih _ (shorter_of_found _ found positive) _ rfl, List.drop_drop,
              List.take_append_drop]
          · rw [textOf_append, textOf_append, textOf_textRun, textOf_textRun,
              ih _ (shorter_of_found _ found (by omega)) _ rfl, List.append_assoc,
              List.take_append_drop, List.take_append_drop]

theorem pushTextAutolinked_nil (style : InlineStyle) :
    pushTextAutolinked isAlphanumeric [] style = [] := rfl

/-- A text that starts no URL but a bare scheme at its end. -/
def Settled (text : Text) : Prop :=
  ∀ place, findUrlStart isAlphanumeric text = some place →
    text.drop place = http ∨ text.drop place = https

theorem bareUrlLen_le_scheme (bare : url = http ∨ url = https) :
    schemeLength url = url.length ∧ bareUrlLen url ≤ schemeLength url := by
  have whole : schemeLength url = url.length := by rcases bare with rfl | rfl <;> decide
  exact ⟨whole, whole ▸ bareUrlLen_le url⟩

theorem pushTextAutolinked_of_settled (settled : Settled isAlphanumeric text) :
    pushTextAutolinked isAlphanumeric text style = textRun text style := by
  cases found : findUrlStart isAlphanumeric text with
  | none => exact pushTextAutolinked_none _ found
  | some place =>
      obtain ⟨whole, bare⟩ := bareUrlLen_le_scheme (settled place found)
      have ended : text.length ≤ place + schemeLength (text.drop place) := by
        rw [whole, List.length_drop]
        omega
      rw [pushTextAutolinked_some _ found, if_pos bare, List.take_of_length_le ended, whole,
        List.drop_length, pushTextAutolinked_nil, List.append_nil]

/-- A run stays as it is under linking exactly where its text is settled. -/
theorem pushTextAutolinked_eq_self_iff (written : text ≠ []) (unlinked : style.link = none) :
    pushTextAutolinked isAlphanumeric text style = [⟨text, style⟩] ↔
      Settled isAlphanumeric text := by
  refine ⟨fun same place found => ?_, fun settled => ?_⟩
  · rw [pushTextAutolinked_some _ found] at same
    have scheme := findUrlStart_scheme found
    have positive := schemeLength_pos (text.drop place)
    split at same
    · have some : text.take (place + schemeLength (text.drop place)) ≠ [] := by
        intro empty
        have size := congrArg List.length empty
        rw [List.length_take, List.length_nil] at size
        have more := List.length_pos_iff.mpr written
        omega
      rw [textRun_of_ne_nil some, List.singleton_append, List.cons.injEq] at same
      have last := textOf_pushTextAutolinked isAlphanumeric
        ((text.drop place).drop (schemeLength (text.drop place))) style
      rw [same.2] at last
      have short := List.drop_eq_nil_iff.mp last.symm
      have whole : schemeLength (text.drop place) = (text.drop place).length :=
        Nat.le_antisymm scheme short
      have started := (findUrlFrom_spec found).2
      by_cases secure : https.isPrefixOf (text.drop place) = true
      · refine .inr ((List.isPrefixOf_iff_prefix.mp secure).eq_of_length ?_).symm
        rw [← whole, schemeLength, if_pos secure]
      · rw [Bool.eq_false_iff.mpr secure, Bool.or_false] at started
        refine .inl ((List.isPrefixOf_iff_prefix.mp started).eq_of_length ?_).symm
        rw [← whole, schemeLength, if_neg secure]
    · rename_i longer
      have some : (text.drop place).take (bareUrlLen (text.drop place)) ≠ [] := by
        intro empty
        have size := congrArg List.length empty
        rw [List.length_take, List.length_nil] at size
        omega
      rw [textRun_of_ne_nil some, List.append_assoc] at same
      have linked := same ▸ List.mem_append_right (textRun (text.take place) style)
        (List.mem_append_left _ (List.mem_singleton_self _))
      have styled := congrArg (·.style.link) (List.mem_singleton.mp linked)
      rw [unlinked] at styled
      cases styled
  · rw [pushTextAutolinked_of_settled _ settled, textRun_of_ne_nil written]

/-- What linking makes of a run: pieces that are linked, or settled in the run's own style. -/
theorem pieces_settled (text : Text) (style : InlineStyle) :
    ∀ run ∈ pushTextAutolinked isAlphanumeric text style, run.text ≠ [] ∧
      (run.style.link.isSome = true ∨ run.style = style ∧ Settled isAlphanumeric run.text) := by
  have whole : ∀ {text : Text}, Settled isAlphanumeric text →
      ∀ run ∈ textRun text style, run.text ≠ [] ∧
        (run.style.link.isSome = true ∨ run.style = style ∧ Settled isAlphanumeric run.text) := by
    intro text settled run member
    unfold textRun at member
    split at member
    · cases member
    · rename_i written
      rw [List.mem_singleton.mp member]
      exact ⟨written, .inr ⟨rfl, settled⟩⟩
  induction size : text.length using Nat.strong_induction_on generalizing text with
  | _ size ih =>
      subst size
      cases found : findUrlStart isAlphanumeric text with
      | none =>
          rw [pushTextAutolinked_none _ found]
          apply whole
          intro place started
          rw [found] at started
          cases started
      | some place =>
          rw [pushTextAutolinked_some _ found]
          have positive := schemeLength_pos (text.drop place)
          intro run member
          split at member
          · rcases List.mem_append.mp member with first | later
            · refine whole (fun other started => ?_) run first
              have same := (findUrlFrom_take_scheme found (Nat.le_refl _)).symm.trans started
              cases same
              rw [List.drop_take, Nat.add_sub_cancel_left]
              have started := (findUrlFrom_spec found).2
              unfold schemeLength
              split
              · rename_i secure
                exact .inr (List.prefix_iff_eq_take.mp (List.isPrefixOf_iff_prefix.mp secure)).symm
              · rename_i other
                rw [Bool.eq_false_iff.mpr other, Bool.or_false] at started
                exact .inl (List.prefix_iff_eq_take.mp (List.isPrefixOf_iff_prefix.mp started)).symm
            · exact ih _ (shorter_of_found _ found positive) _ rfl run later
          · rename_i longer
            rcases List.mem_append.mp member with front | later
            · rcases List.mem_append.mp front with first | linked
              · refine whole (fun other started => ?_) run first
                have none := findUrlFrom_take_place found
                rw [findUrlStart, none] at started
                cases started
              · unfold textRun at linked
                split at linked
                · cases linked
                · rename_i written
                  rw [List.mem_singleton.mp linked]
                  exact ⟨written, .inl rfl⟩
            · exact ih _ (shorter_of_found _ found (by omega)) _ rfl run later

end pieces

/-! ## All the runs of a block -/

section blocks

variable (isAlphanumeric)

/-- A run outside links and code spans, which linking reads. -/
def InlineRun.linkable (run : InlineRun) : Bool := !(run.style.link.isSome || run.style.code)

/-- The runs a container pushes: only an image has no text of its own. -/
def Written (runs : List InlineRun) : Prop := ∀ run ∈ runs, run.linkable = true → run.text ≠ []

def linkRun (run : InlineRun) : List InlineRun :=
  if run.style.link.isSome || run.style.code then [run]
  else pushTextAutolinked isAlphanumeric run.text run.style

theorem linkRun_of_not_linkable {run : InlineRun} (kept : run.linkable = false) :
    linkRun isAlphanumeric run = [run] := by
  rw [InlineRun.linkable, Bool.not_eq_false'] at kept
  exact if_pos kept

theorem linkRun_of_linkable {run : InlineRun} (linkable : run.linkable = true) :
    linkRun isAlphanumeric run = pushTextAutolinked isAlphanumeric run.text run.style := by
  rw [InlineRun.linkable, Bool.not_eq_true'] at linkable
  exact if_neg (Bool.eq_false_iff.mp linkable)

theorem autolinkRuns_eq (runs : List InlineRun) :
    autolinkRuns isAlphanumeric runs = runs.flatMap (linkRun isAlphanumeric) := rfl

theorem textOf_linkRun (run : InlineRun) : textOf (linkRun isAlphanumeric run) = run.text := by
  cases linkable : run.linkable with
  | true => rw [linkRun_of_linkable _ linkable, textOf_pushTextAutolinked]
  | false =>
      rw [linkRun_of_not_linkable _ linkable]
      exact List.append_nil _

/-- Linking keeps the text of a block. -/
theorem textOf_autolinkRuns (runs : List InlineRun) :
    textOf (autolinkRuns isAlphanumeric runs) = textOf runs := by
  rw [autolinkRuns_eq]
  induction runs with
  | nil => rfl
  | cons run runs ih =>
      rw [List.flatMap_cons, textOf_append, textOf_linkRun, ih]
      rfl

theorem linkRun_ne_nil {run : InlineRun} (written : run.linkable = true → run.text ≠ []) :
    linkRun isAlphanumeric run ≠ [] := by
  cases linkable : run.linkable with
  | false =>
      rw [linkRun_of_not_linkable _ linkable]
      exact List.cons_ne_nil _ _
  | true =>
      intro empty
      apply written linkable
      rw [← textOf_linkRun isAlphanumeric run, empty]
      rfl

/-- Linking leaves a block as it is exactly where the text of every linkable run is settled. -/
theorem autolinkRuns_eq_self_iff (written : Written runs) :
    autolinkRuns isAlphanumeric runs = runs ↔
      ∀ run ∈ runs, run.linkable = true → Settled isAlphanumeric run.text := by
  have stays : ∀ {run : InlineRun}, (run.linkable = true → run.text ≠ []) →
      (linkRun isAlphanumeric run = [run] ↔
        (run.linkable = true → Settled isAlphanumeric run.text)) := by
    intro run written
    cases linkable : run.linkable with
    | false => exact iff_of_true (linkRun_of_not_linkable _ linkable) nofun
    | true =>
        have unlinked : run.style.link = none := by
          rw [InlineRun.linkable, Bool.not_eq_true', Bool.or_eq_false_iff] at linkable
          exact Option.isSome_eq_false_iff.mp linkable.1 |> Option.isNone_iff_eq_none.mp
        rw [linkRun_of_linkable _ linkable,
          pushTextAutolinked_eq_self_iff _ (written linkable) unlinked]
        exact (imp_iff_right rfl).symm
  rw [autolinkRuns_eq]
  induction runs with
  | nil => exact iff_of_true rfl (by intros; contradiction)
  | cons run runs ih =>
      have first := written run List.mem_cons_self
      have others : Written runs := fun other member => written other (List.mem_cons_of_mem _ member)
      rw [List.flatMap_cons, List.forall_mem_cons, ← stays first]
      refine Iff.trans ⟨fun same => ?_, fun same => ?_⟩ (and_congr_right fun _ => ih others)
      · -- Every run gives a piece at least, so none gives two.
        have long : ∀ {runs : List InlineRun}, Written runs →
            runs.length ≤ (runs.flatMap (linkRun isAlphanumeric)).length := by
          intro runs written
          induction runs with
          | nil => exact Nat.le_refl 0
          | cons run runs ih =>
              have some := List.length_pos_iff.mpr
                (linkRun_ne_nil isAlphanumeric (written run List.mem_cons_self))
              have more := ih fun other member => written other (List.mem_cons_of_mem _ member)
              rw [List.flatMap_cons, List.length_append, List.length_cons]
              omega
        have some := List.length_pos_iff.mpr (linkRun_ne_nil isAlphanumeric first)
        have more := long others
        have size := congrArg List.length same
        rw [List.length_append, List.length_cons] at size
        obtain ⟨piece, single⟩ := List.length_eq_one_iff.mp
          (show (linkRun isAlphanumeric run).length = 1 by omega)
        rw [single, List.singleton_append, List.cons.injEq] at same
        rw [single, same.1]
        exact ⟨rfl, same.2⟩
      · rw [same.1, same.2]
        rfl

/-- Linking twice is linking once. -/
theorem autolinkRuns_autolinkRuns (runs : List InlineRun) :
    autolinkRuns isAlphanumeric (autolinkRuns isAlphanumeric runs) =
      autolinkRuns isAlphanumeric runs := by
  have piece : ∀ run, ∀ part ∈ linkRun isAlphanumeric run,
      (part.linkable = true → part.text ≠ []) ∧
        (part.linkable = true → Settled isAlphanumeric part.text) := by
    intro run part member
    cases linkable : run.linkable with
    | false =>
        rw [linkRun_of_not_linkable _ linkable] at member
        rw [List.mem_singleton.mp member, linkable]
        exact ⟨nofun, nofun⟩
    | true =>
        rw [linkRun_of_linkable _ linkable] at member
        obtain ⟨written, linked | ⟨_, settled⟩⟩ := pieces_settled _ _ _ part member
        · rw [InlineRun.linkable, linked]
          exact ⟨nofun, nofun⟩
        · exact ⟨fun _ => written, fun _ => settled⟩
  rw [autolinkRuns_eq_self_iff _ fun part member => ?_]
  · intro part member
    obtain ⟨run, _, among⟩ := List.mem_flatMap.mp member
    exact (piece run part among).2
  · obtain ⟨run, _, among⟩ := List.mem_flatMap.mp member
    exact (piece run part among).1

end blocks

end Zeron.Markdown
