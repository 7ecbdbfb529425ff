import Zeron.Preview.Traces

namespace Zeron.Preview

open Zeron.Data

/-! # A running server keeps its service

A listener is matched first with the service it held, then with the first free
service of its fingerprint.  The second match may hand a newcomer a service that a
listener further down the scan still holds.
-/

variable {machine : Machine} {catalog : Catalog} {pass after : Pass} {seen : Observation}

/-! ## The condition -/

/-- The service a listener held after the last scan, if it can still go by it. -/
def Catalog.heldBy (machine : Machine) (catalog : Catalog) (seen : Observation) : Option String :=
  (previousId catalog.routes seen.listener).filter fun id =>
    decide (id ∈ printsOf machine catalog.names seen)

/-- The services of its fingerprint that come before the one a listener holds. -/
def Catalog.earlier (machine : Machine) (catalog : Catalog) (holder : Observation) (id : String) :
    List String :=
  (printsOf machine catalog.names holder).takeWhile (· ≠ id)

/-- A listener that takes one of those: it holds one, or it is new and takes what
is free. -/
def Catalog.takesEarlier (machine : Machine) (catalog : Catalog) (holder : Observation)
    (id : String) (seen : Observation) : Bool :=
  alike machine seen holder &&
    (catalog.heldBy machine seen).all fun held =>
      decide (held ∈ catalog.earlier machine holder id)

/-- A scan that leaves every server its service: no process is seen under two roots,
and where a newcomer comes before a listener with the same command line, one of the
services before that listener's is still free. -/
structure Undisturbed (machine : Machine) (catalog : Catalog) (observations : List Observation) :
    Prop where
  once : (observations.map fun seen => seen.listener.process).Nodup
  room : ∀ {before newcomer between holder after id},
    sorted observations = before ++ newcomer :: (between ++ holder :: after) →
    alike machine newcomer holder = true → catalog.heldBy machine newcomer = none →
    catalog.heldBy machine holder = some id →
      (before.filter (catalog.takesEarlier machine holder id)).length <
        (catalog.earlier machine holder id).length

theorem Undisturbed.one_root {observations : List Observation}
    (undisturbed : Undisturbed machine catalog observations) : OneRoot observations := by
  intro a memberA b memberB same
  rw [List.inj_on_of_nodup_map undisturbed.once memberA memberB same]

theorem Catalog.heldBy_spec {id : String} (held : catalog.heldBy machine seen = some id) :
    previousId catalog.routes seen.listener = some id ∧
      id ∈ printsOf machine catalog.names seen := by
  obtain ⟨previous, mine⟩ := Option.filter_eq_some_iff.mp held
  exact ⟨previous, by simpa using mine⟩

theorem Catalog.heldBy_none {id : String} (free : catalog.heldBy machine seen = none)
    (previous : previousId catalog.routes seen.listener = some id) :
    id ∉ printsOf machine catalog.names seen := by
  intro mine
  have held : catalog.heldBy machine seen = some id :=
    Option.filter_eq_some_iff.mpr ⟨previous, by simpa using mine⟩
  rw [free] at held
  cases held

theorem previousId_spec {routes : Table LocalRoute} {listener : Listener} {id : String}
    (previous : previousId routes listener = some id) :
    ∃ key route, routes.lookup key = some route ∧ route.service.id = id ∧
      route.listener.process = listener.process := by
  obtain ⟨⟨key, route⟩, found, same⟩ := Option.map_eq_some_iff.mp previous
  have matching := List.find?_some found
  simp only [decide_eq_true_eq] at matching
  exact ⟨key, route, AList.mem_lookup_iff.mpr (List.mem_of_find?_eq_some found), same,
    by simp [Listener.process, matching]⟩

/-- The first service that fits and is free comes no later than any other that does. -/
theorem find?_earlier {services : List ServiceName} {print target free : String}
    {next : Table LocalRoute} (unused : free ∉ next)
    (before : free ∈ ((services.filter fun service => service.fingerprint = print).map
      ServiceName.id).takeWhile (· ≠ target)) :
    ∃ service, services.find? (fun service =>
      service.fingerprint = print ∧ service.id ∉ next) = some service ∧ service.id ≠ target := by
  induction services with
  | nil => simp at before
  | cons first rest ih =>
      by_cases fits : first.fingerprint = print
      · rw [List.filter_cons_of_pos (by simpa using fits), List.map_cons] at before
        by_cases here : first.id = target
        · rw [List.takeWhile_cons_of_neg (by simpa using here)] at before
          cases before
        · rw [List.takeWhile_cons_of_pos (by simpa using here)] at before
          by_cases taken : first.id ∈ next
          · rcases List.mem_cons.mp before with same | later
            · exact absurd (same ▸ taken) unused
            · obtain ⟨service, found, apart⟩ := ih later
              exact ⟨service, by rw [List.find?_cons_of_neg (by simp [taken])]; exact found, apart⟩
          · exact ⟨first, List.find?_cons_of_pos (by simp [fits, taken]), here⟩
      · rw [List.filter_cons_of_neg (by simpa using fits)] at before
        obtain ⟨service, found, apart⟩ := ih before
        exact ⟨service, by rw [List.find?_cons_of_neg (by simp [fits])]; exact found, apart⟩

/-! ## A scan that disturbs nothing -/

theorem ProjectName.reuse_held {project : ProjectName} {service : ServiceName}
    {next : Table LocalRoute} (member : service ∈ project.services) (unused : service.id ∉ next) :
    project.reuse service.fingerprint (some service.id) next = some service.id := by
  have found : (project.services.find? fun other => other.fingerprint = service.fingerprint ∧
      some service.id = some other.id ∧ other.id ∉ next).isSome = true := by
    rw [List.find?_isSome]
    exact ⟨service, member, by simp [unused]⟩
  obtain ⟨other, first⟩ := Option.isSome_iff_exists.mp found
  have fits := List.find?_some first
  simp only [decide_eq_true_eq, Option.some_inj] at fits
  rw [reuse, first, Option.some_or, Option.map_some, fits.2.1]

theorem countP_or_le {α : Type} (p q : α → Bool) (list : List α) :
    list.countP (fun entry => p entry || q entry) ≤ list.countP p + list.countP q := by
  induction list with
  | nil => simp
  | cons entry rest ih =>
      simp only [List.countP_cons]
      cases p entry <;> cases q entry <;> simp <;> omega

/-- A scan half way: those still to come find what they hold, those done kept it. -/
structure Pass.Keeping (machine : Machine) (catalog : Catalog) (drawn : Nat)
    (done todo : List Observation) (pass : Pass) : Prop where
  traced : pass.Traced machine done
  grown : catalog.names.Extends pass.names
  later : drawn ≤ pass.drawn
  reserved : ∀ seen ∈ todo, ∀ {id}, catalog.heldBy machine seen = some id → id ∉ pass.next
  kept : ∀ seen ∈ done, ∀ {id}, catalog.heldBy machine seen = some id →
    ∃ route, pass.next.lookup id = some route ∧ route.listener = seen.listener ∧
      route.service.projectCwd = toStringLossy seen.root
  taken : ∀ {holder id}, catalog.heldBy machine holder = some id →
    (catalog.earlier machine holder id).countP (fun other => decide (other ∈ pass.next)) ≤
      (done.filter (catalog.takesEarlier machine holder id)).length

section Scan

variable {drawn : Nat} {observed observations done todo : List Observation}
  {id : String} {route : LocalRoute}

/-- A listener that held a service gets it. -/
theorem Pass.Picks.held (keeping : pass.Keeping machine catalog drawn done (seen :: todo))
    (picks : pass.Picks machine catalog seen after id route) {own : String}
    (held : catalog.heldBy machine seen = some own) : id = own := by
  obtain ⟨previous, mine⟩ := Catalog.heldBy_spec held
  have unused := keeping.reserved seen (List.mem_cons_self ..) held
  obtain ⟨project, service, stored, member, print, same⟩ :=
    mem_printsOf.mp (printsOf_extends keeping.grown mine)
  have reuse := ProjectName.reuse_held member (same ▸ unused)
  rw [print, same, ← previous] at reuse
  rcases picks.how with ⟨project', stored', reuse'⟩ | ⟨unmatched, -⟩
  · rw [stored] at stored'
    cases stored'
    exact Option.some_inj.mp ((reuse'.symm.trans reuse).trans previous)
  · rw [unmatched project stored, previous] at reuse
    cases reuse

/-- Two listeners of one scan never held the same service. -/
theorem held_apart (earlier : Traces machine catalog.names observed catalog.routes)
    {other : Observation} (unlike : seen.listener.process ≠ other.listener.process)
    {own theirs : String} (held : catalog.heldBy machine seen = some own)
    (held' : catalog.heldBy machine other = some theirs) : own ≠ theirs := by
  rintro rfl
  obtain ⟨key, first, found, mine, process⟩ := previousId_spec (Catalog.heldBy_spec held).1
  obtain ⟨key', second, found', mine', process'⟩ := previousId_spec (Catalog.heldBy_spec held').1
  have keys : key = key' := by
    rw [← (earlier.routes found).1, ← (earlier.routes found').1, mine, mine']
  subst keys
  rw [found] at found'
  cases found'
  exact unlike (process.symm.trans process')

/-- A newcomer leaves alone what a listener further down holds. -/
theorem Pass.Picks.newcomer (keeping : pass.Keeping machine catalog drawn done (seen :: todo))
    (injective : Function.Injective machine.newV4)
    (identified : catalog.names.Identified machine drawn)
    (placed : pass.Placed machine catalog seen after)
    (picks : pass.Picks machine catalog seen after id route)
    (new : catalog.heldBy machine seen = none) {holder : Observation} {own : String}
    (held : catalog.heldBy machine holder = some own)
    (room : alike machine seen holder = true →
      (done.filter (catalog.takesEarlier machine holder own)).length <
        (catalog.earlier machine holder own).length) : id ≠ own := by
  rintro rfl
  have mine := (Catalog.heldBy_spec held).2
  have last := (placed.identified injective keeping.traced.identified).1
  have like := last.alike picks.service
    (printsOf_extends (keeping.grown.trans placed.extends) mine)
  rcases picks.how with ⟨project, stored, reuse⟩ | ⟨-, n, bound, fresh⟩
  · -- One of the services before the holder's is free, and comes first.
    have some_free : ∃ free ∈ catalog.earlier machine holder id, free ∉ pass.next := by
      by_contra none_free
      push Not at none_free
      have all : (catalog.earlier machine holder id).countP (fun other =>
          decide (other ∈ pass.next)) = (catalog.earlier machine holder id).length :=
        List.countP_eq_length.mpr (fun other member => by simpa using none_free other member)
      have bound := keeping.taken held
      have space := room like
      omega
    obtain ⟨free, before, unused⟩ := some_free
    rw [Catalog.earlier, ← printsOf_alike like, printsOf] at before
    cases there : catalog.names.projects.lookup (toStringLossy seen.root) with
    | none => simp [there] at before
    | some original =>
        simp only [there] at before
        obtain ⟨more, grown⟩ := keeping.grown.projects there
        rw [stored] at grown
        cases grown
        obtain ⟨service, first, apart⟩ := find?_earlier unused before
        rcases Option.map_eq_some_iff.mp reuse with ⟨picked, found, same⟩
        rcases Option.or_eq_some_iff.mp found with by_previous | ⟨-, by_print⟩
        · have fits := List.find?_some by_previous
          simp only [decide_eq_true_eq] at fits
          rw [same] at fits
          exact Catalog.heldBy_none new fits.2.1 (printsOf_alike like ▸ mine)
        · rw [List.find?_append, first, Option.some_or] at by_print
          cases by_print
          exact apart same
  · obtain ⟨project, service, stored, member, -, same⟩ := mem_printsOf.mp mine
    obtain ⟨m, early, old⟩ := identified.drawn stored member
    have equal := injective ((old.symm.trans same).trans fresh)
    have later := keeping.later
    omega

theorem Pass.Keeping.placed (injective : Function.Injective machine.newV4)
    (identified : catalog.names.Identified machine drawn)
    (earlier : Traces machine catalog.names observed catalog.routes)
    (undisturbed : Undisturbed machine catalog observations)
    (spots : (observations.map Observation.spot).Nodup)
    (split : sorted observations = done ++ seen :: todo)
    (keeping : pass.Keeping machine catalog drawn done (seen :: todo))
    (placed : pass.Placed machine catalog seen after) :
    after.Keeping machine catalog drawn (done ++ [seen]) todo := by
  have perm : (done ++ seen :: todo).Perm observations :=
    split ▸ List.perm_insertionSort _ observations
  have spots_apart := (perm.map _).nodup_iff.mpr spots
  have process_apart := (perm.map _).nodup_iff.mpr undisturbed.once
  simp only [List.map_append, List.map_cons, List.nodup_append, List.nodup_cons, List.mem_map,
    List.mem_cons] at spots_apart process_apart
  have once : seen.spot ∉ pass.seen := by
    intro twice
    obtain ⟨other, member, same⟩ := keeping.traced.spots.mp twice
    exact spots_apart.2.2 _ ⟨other, member, rfl⟩ _ (.inl rfl) same
  have unlike_todo : ∀ other ∈ todo, seen.listener.process ≠ other.listener.process :=
    fun other member same => process_apart.2.1.1 ⟨other, member, same.symm⟩
  obtain ⟨id, route, picks⟩ := placed.picks once
  have fresh := picks.fresh injective keeping.traced
  refine ⟨keeping.traced.placed injective placed, keeping.grown.trans placed.extends,
    keeping.later.trans (placed.identified injective keeping.traced.identified).2, ?_, ?_, ?_⟩
  · intro holder member own held taken
    rcases picks.mem_next.mp taken with rfl | before
    · cases mine : catalog.heldBy machine seen with
      | some own =>
          exact held_apart earlier (unlike_todo holder member) (picks.held keeping mine ▸ mine)
            held rfl
      | none =>
          obtain ⟨between, rest, follows⟩ := List.append_of_mem member
          refine picks.newcomer keeping injective identified placed mine held ?_ rfl
          intro like
          exact undisturbed.room (by rw [split, follows]) like mine held
    · exact keeping.reserved holder (List.mem_cons_of_mem _ member) held before
  · intro holder member own held
    rcases List.mem_append.mp member with old | new
    · obtain ⟨kept, found, rest⟩ := keeping.kept holder old held
      have apart : own ≠ id := by
        rintro rfl
        exact fresh (AList.lookup_isSome.mp (by simp [found]))
      exact ⟨kept, (picks.lookup_ne apart).trans found, rest⟩
    · rw [List.mem_singleton.mp new] at held ⊢
      rw [← picks.held keeping held]
      exact ⟨route, picks.lookup, picks.listener, picks.cwd⟩
  · intro holder own held
    have before := keeping.taken held
    rw [List.filter_append, List.length_append]
    have once_each : (catalog.earlier machine holder own).Nodup := by
      have prints : (printsOf machine catalog.names holder).Nodup := by
        unfold printsOf
        split
        · rename_i project stored
          exact (identified.distinct stored).sublist (List.filter_sublist.map _)
        · exact List.nodup_nil
      exact prints.sublist (List.takeWhile_sublist _)
    have grew : (catalog.earlier machine holder own).countP
        (fun other => decide (other ∈ after.next)) ≤
          (catalog.earlier machine holder own).count id +
            (catalog.earlier machine holder own).countP
              (fun other => decide (other ∈ pass.next)) := by
      refine le_trans (le_of_eq ?_) (countP_or_le ..)
      apply List.countP_congr
      intro other _
      simp [picks.mem_next]
    by_cases inside : id ∈ catalog.earlier machine holder own
    · -- The service it took is one of those counted, and so is the listener.
      have mine := printsOf_extends (keeping.grown.trans placed.extends)
        ((List.takeWhile_sublist _).subset inside)
      have last := (placed.identified injective keeping.traced.identified).1
      have like := last.alike picks.service mine
      have counted : catalog.takesEarlier machine holder own seen = true := by
        rw [Catalog.takesEarlier, like, Bool.true_and, Option.all_eq_true]
        intro theirs held'
        rw [← picks.held keeping held']
        simpa using inside
      have single := List.nodup_iff_count_le_one.mp once_each id
      simp only [List.filter_cons, counted, if_true, List.filter_nil, List.length_cons,
        List.length_nil]
      omega
    · rw [List.count_eq_zero.mpr inside] at grew
      omega

end Scan

/-- A whole scan under the condition. -/
theorem Undisturbed.scan (injective : Function.Injective machine.newV4) {drawn : Nat}
    {observed observations : List Observation}
    (identified : catalog.names.Identified machine drawn)
    (earlier : Traces machine catalog.names observed catalog.routes)
    (undisturbed : Undisturbed machine catalog observations)
    (spots : (observations.map Observation.spot).Nodup)
    (placed : (Pass.start catalog.names drawn).placeAll machine catalog (sorted observations) =
      some after) :
    after.Keeping machine catalog drawn (sorted observations) [] := by
  have start : (Pass.start catalog.names drawn).Keeping machine catalog drawn []
      (sorted observations) := by
    refine ⟨Pass.traced_start identified, .refl _, le_refl _, ?_,
      by simp, ?_⟩
    · intro seen _ id _ taken
      simp [Pass.start] at taken
    · intro holder id _
      simp [Pass.start]
  have final := Pass.placeAll_walk
    (fun split keeping placed =>
      keeping.placed injective identified earlier undisturbed spots split placed) start placed
  simpa using final

/-! ## Runs -/

/-- A call the condition allows: at most 256 listeners, no root's port twice, and no
server disturbed. -/
def Call.Settled (machine : Machine) (world : World) : Call → Prop
  | .replaceLocal observations _ _ =>
      observations.length ≤ 256 ∧
        (observations.map Observation.spot).Nodup ∧
        Undisturbed machine world.catalog observations
  | _ => True

variable {world next : World}

/-- What runs of such calls keep. -/
structure World.Kept (machine : Machine) (world : World) : Prop where
  sound : world.Sound
  traced : world.Traced machine
  once : OneRoot world.observed
  short : world.observed.length ≤ 256
  spots : (world.observed.map Observation.spot).Nodup

theorem scanOf_short {observations : List Observation} (short : observations.length ≤ 256) :
    scanOf observations = sorted observations := by
  apply List.take_of_length_le
  rw [sorted, List.length_insertionSort]
  exact short

/-- A call that succeeds has kept every service through its scan. -/
theorem Undisturbed.replaced (injective : Function.Injective machine.newV4)
    {observations : List Observation} {persists : Bool} {order : HashOrder}
    (traced : world.Traced machine)
    (settled : Call.Settled machine world (.replaceLocal observations persists order))
    (replaced : world.Replaced machine observations persists order next) (ok : next.reply = .ok) :
    ∃ pass : Pass, pass.Keeping machine world.catalog world.drawn (sorted observations) [] ∧
      next.catalog.names = pass.names ∧ next.observed = observations ∧
      ∀ id, next.catalog.routes.lookup id = pass.next.lookup id := by
  obtain ⟨short, spots, undisturbed⟩ := settled
  cases replaced with
  | unwritten => cases ok
  | published scanned written =>
      rename_i pass
      rw [scanOf_short short] at scanned
      exact ⟨pass, undisturbed.scan injective traced.identified traced.traces spots scanned, rfl,
        rfl, fun id => AList.perm_lookup (order.perm pass.next)⟩

theorem World.Kept.step (injective : Function.Injective machine.newV4) (kept : world.Kept machine)
    {call : Call} (settled : Call.Settled machine world call)
    (stepped : world.step machine call = some next) : next.Kept machine := by
  have sound := kept.sound.step stepped
  have traced := kept.traced.step injective stepped
  cases call with
  | replaceLocal observations persists order =>
      have replaced := replaceLocal_spec stepped
      by_cases ok : next.reply = .ok
      · obtain ⟨pass, keeping, -, observed, lookup⟩ :=
          Undisturbed.replaced injective kept.traced settled replaced ok
        refine ⟨sound, traced, ?_, observed ▸ settled.1, observed ▸ settled.2.1⟩
        rw [observed]
        exact settled.2.2.one_root
      · cases replaced with
        | unwritten => exact ⟨sound, traced, kept.once, kept.short, kept.spots⟩
        | published => exact absurd rfl ok
  | setRemote device services persists =>
      cases setRemote_spec stepped <;>
        exact ⟨sound, traced, kept.once, kept.short, kept.spots⟩
  | removeRemote device =>
      cases stepped
      exact ⟨sound, traced, kept.once, kept.short, kept.spots⟩
  | clearRemote =>
      cases stepped
      exact ⟨sound, traced, kept.once, kept.short, kept.spots⟩
  | setProxyStatus port error =>
      cases stepped
      exact ⟨sound, traced, kept.once, kept.short, kept.spots⟩
  | restart deviceId deviceName =>
      cases stepped
      exact ⟨sound, traced, by simp [opened, OneRoot], by simp [opened], by simp [opened]⟩

theorem World.Kept.single (kept : world.Kept machine) : Single world.catalog.routes :=
  kept.traced.traces.single fun a memberA b memberB =>
    kept.once a (mem_sorted.mp (List.mem_of_mem_take memberA)) b
      (mem_sorted.mp (List.mem_of_mem_take memberB))

theorem World.Kept.find? (kept : world.Kept machine) (member : seen ∈ world.observed) :
    (scanOf world.observed).find? (fun other => other.spot = seen.spot) = some seen := by
  rw [scanOf_short kept.short]
  have there := mem_sorted.mpr member
  have found : ((sorted world.observed).find? fun other => other.spot = seen.spot).isSome =
      true := by
    rw [List.find?_isSome]
    exact ⟨seen, there, by simp⟩
  obtain ⟨other, first⟩ := Option.isSome_iff_exists.mp found
  have spots := ((List.perm_insertionSort (fun a b : Observation => (a.order b).isLE = true)
    world.observed).map Observation.spot).nodup_iff.mpr kept.spots
  have same : other.spot = seen.spot := by simpa using List.find?_some first
  rw [first, List.inj_on_of_nodup_map spots (List.mem_of_find?_eq_some first) there same]

theorem identityText_eq {a b : Listener} (cwd : a.cwd = b.cwd) (args : a.args = b.args)
    (port : a.port = b.port) : identityText a = identityText b := by
  rw [identityText, identityText, cwd, args, port]

/-- In every run of scans that disturb nothing, a listener seen in two scans that
succeed one after the other keeps its service and its hostname. -/
theorem server_keeps_url (injective : Function.Injective machine.newV4)
    {deviceId deviceName : String} {drawn : Nat}
    (runs : Reaches (World.step machine) (Call.Settled machine)
      (World.opened none deviceId deviceName drawn) world)
    {observations : List Observation} {persists : Bool} {order : HashOrder}
    (settled : Call.Settled machine world (.replaceLocal observations persists order))
    (stepped : world.step machine (.replaceLocal observations persists order) = some next)
    (ok : next.reply = .ok) {seen again : Observation} (before : seen ∈ world.observed)
    (now : again ∈ observations) (root : again.root = seen.root)
    (process : again.listener.process = seen.listener.process)
    (cwd : again.listener.cwd = seen.listener.cwd) (args : again.listener.args = seen.listener.args) :
    ∃ id route route',
      world.catalog.routes.lookup id = some route ∧ route.listener = seen.listener ∧
      route.service.projectCwd = toStringLossy seen.root ∧
      next.catalog.routes.lookup id = some route' ∧ route'.listener = again.listener ∧
      route'.service.projectCwd = toStringLossy again.root ∧
      route'.service.id = route.service.id ∧
      route'.service.hostname = route.service.hostname ∧
      ∀ other held, next.catalog.routes.lookup other = some held →
        held.listener.process = again.listener.process → other = id := by
  have start : (World.opened none deviceId deviceName drawn).Kept machine :=
    ⟨World.sound_opened (by simp) deviceId deviceName drawn,
      World.traced_opened (by simp) deviceId deviceName, by simp [World.opened, OneRoot],
      by simp [World.opened], by simp [World.opened]⟩
  have kept : world.Kept machine :=
    runs.keeps start (fun _ _ _ held allowed stepped => held.step injective allowed stepped)
  have kept' := kept.step injective settled stepped
  have sound' := kept'.sound
  have traced' := kept'.traced
  have sound := kept.sound
  have traced := kept.traced
  obtain ⟨pass, keeping, names, observed, lookup⟩ :=
    Undisturbed.replaced injective traced settled (World.replaceLocal_spec stepped) ok
  obtain ⟨id, route, found, listener, projectCwd⟩ := traced.traces.placed (kept.find? before)
  obtain ⟨own, other, member, listener', projectCwd', prints⟩ := traced.traces.routes found
  have print : fingerprint machine again.listener = fingerprint machine other.listener := by
    rw [← listener', listener]
    exact congrArg machine.sha256 (identityText_eq cwd args (congrArg (·.2.2) process))
  have like : alike machine again other = true := by
    refine alike_iff.mpr ⟨?_, print⟩
    rw [root, ← projectCwd, projectCwd']
  have held : world.catalog.heldBy machine again = some id := by
    have same : route.listener.process = again.listener.process := by rw [listener, process]
    have matching : (world.catalog.routes.entries.find? fun entry =>
        entry.2.listener.pid = again.listener.pid ∧
          entry.2.listener.startedAt = again.listener.startedAt ∧
            entry.2.listener.port = again.listener.port).isSome = true := by
      rw [List.find?_isSome]
      refine ⟨⟨id, route⟩, AList.mem_lookup_iff.mp found, ?_⟩
      simp only [Listener.process, Prod.mk.injEq] at same
      simpa using same
    obtain ⟨⟨key, holder⟩, first⟩ := Option.isSome_iff_exists.mp matching
    have fits := List.find?_some first
    simp only [decide_eq_true_eq] at fits
    have stored := AList.mem_lookup_iff.mpr (List.mem_of_find?_eq_some first)
    have one : key = id := kept.single stored found (by
      rw [same]
      simp [Listener.process, fits])
    refine Option.filter_eq_some_iff.mpr ⟨?_, by simpa [printsOf_alike like] using prints⟩
    rw [previousId, first, Option.map_some, (traced.traces.routes stored).1, one]
  obtain ⟨route', found', listener'', projectCwd''⟩ :=
    keeping.kept again (mem_sorted.mpr now) held
  have there : next.catalog.routes.lookup id = some route' := (lookup id).trans found'
  refine ⟨id, route, route', found, listener, projectCwd, there, listener'', projectCwd'', ?_, ?_,
    fun other held there' same => ?_⟩
  · rw [(traced'.traces.routes there).1, own]
  · obtain ⟨project, service, stored, inside, mine, -, -, -, hostname⟩ := sound.routes found
    obtain ⟨project', service', stored', inside', mine', -, -, -, hostname'⟩ := sound'.routes there
    obtain ⟨more, grown⟩ := keeping.grown.projects stored
    rw [← names] at grown
    have same := (traced'.identified.same stored' grown inside' (List.mem_append_left _ inside)
      (mine'.trans mine.symm)).2
    rw [hostname', hostname, same, names, keeping.grown.device]
  · exact kept'.single there' there (by rw [same, listener''])

/-- Started by hand, and running since. -/
def olderServer : Observation := ⟨myApp, { myListener 3000 1 "api.js" with zeronOwned := false }⟩

/-- The same command on another port. -/
def secondServer (zeronOwned : Bool) : Observation :=
  ⟨myApp, { myListener 3001 2 "api.js" with zeronOwned := zeronOwned }⟩

/-- Any scan at all: at most 256 listeners, no root's port twice. -/
def Call.apart : Call → Bool
  | .replaceLocal observations _ _ =>
      decide (observations.length ≤ 256) &&
        decide (observations.map Observation.spot).Nodup
  | _ => true

/-- A second server of the same command, started by the daemon, comes first in the scan
and walks off with the first one's service. -/
theorem url_lost_to_second_server :
    ∃ (world next : World) (route route' : Sigma fun _ : String => LocalRoute),
      Reaches (World.step myMachine) (fun _ call => call.apart = true)
        (World.opened none "device" "MacBook" 0) world ∧
      world.step myMachine
        (.replaceLocal [olderServer, secondServer true] true .asInserted) = some next ∧
      next.reply = .ok ∧ olderServer ∈ world.observed ∧
      route ∈ world.catalog.routes.entries ∧ route.2.listener = olderServer.listener ∧
      route' ∈ next.catalog.routes.entries ∧ route'.2.listener = olderServer.listener ∧
      route.2.service.hostname = "macbook.my-app.localhost" ∧
      route'.2.service.hostname = "macbook.my-app-api.localhost" ∧ route.1 ≠ route'.1 := by
  have ran : ((runAll (World.step myMachine) (fun _ call => call.apart)
      (World.opened none "device" "MacBook" 0)
      [.replaceLocal [olderServer] true .asInserted]).bind fun world =>
      (world.step myMachine
        (.replaceLocal [olderServer, secondServer true] true .asInserted)).map fun next =>
      decide (world.observed = [olderServer] ∧ next.reply = .ok ∧
        world.catalog.routes.entries.map (fun route =>
          (route.1, route.2.listener, route.2.service.hostname)) =
          [(myMachine.newV4 1, olderServer.listener, "macbook.my-app.localhost")] ∧
        next.catalog.routes.entries.map (fun route =>
          (route.1, route.2.listener, route.2.service.hostname)) =
          [(myMachine.newV4 2, olderServer.listener, "macbook.my-app-api.localhost"),
            (myMachine.newV4 1, (secondServer true).listener, "macbook.my-app.localhost")])) =
      some true := by
    decide +kernel
  obtain ⟨world, ran, rest⟩ := Option.bind_eq_some_iff.mp ran
  obtain ⟨next, stepped, shown⟩ := Option.map_eq_some_iff.mp rest
  obtain ⟨observed, reply, routes, routes'⟩ := of_decide_eq_true shown
  obtain ⟨route, member, same⟩ := List.mem_map.mp (routes ▸ List.mem_singleton_self _)
  obtain ⟨route', member', same'⟩ := List.mem_map.mp (routes' ▸ List.mem_cons_self ..)
  simp only [Prod.mk.injEq] at same same'
  refine ⟨world, next, route, route', reaches_of_runAll ran, stepped, reply, by simp [observed],
    member, same.2.1, member', same'.2.1, same.2.2, same'.2.2, ?_⟩
  rw [same.1, same'.1]
  decide

theorem server_keeps_url_beside_second :
    ∃ (world next : World) (route route' : Sigma fun _ : String => LocalRoute),
      world.step myMachine
        (.replaceLocal [olderServer, secondServer false] true .asInserted) = some next ∧
      route ∈ world.catalog.routes.entries ∧ route.2.listener = olderServer.listener ∧
      route' ∈ next.catalog.routes.entries ∧ route'.2.listener = olderServer.listener ∧
      route'.2.service.id = route.2.service.id ∧
      route'.2.service.hostname = route.2.service.hostname := by
  have first_settled : Call.Settled myMachine (World.opened none "device" "MacBook" 0)
      (.replaceLocal [olderServer] true .asInserted) := by
    refine ⟨by decide, by decide, by decide, ?_⟩
    intro before newcomer between holder after id split
    have lengths := congrArg List.length split
    simp [sorted] at lengths
    omega
  have ran : (((World.opened none "device" "MacBook" 0).step myMachine
      (.replaceLocal [olderServer] true .asInserted)).bind fun world =>
      (world.step myMachine
        (.replaceLocal [olderServer, secondServer false] true .asInserted)).map fun next =>
      (world.observed, next.reply, (world.catalog.heldBy myMachine olderServer).isSome)) =
      some ([olderServer], .ok, true) := by decide +kernel
  obtain ⟨world, first, rest⟩ := Option.bind_eq_some_iff.mp ran
  obtain ⟨next, stepped, shown⟩ := Option.map_eq_some_iff.mp rest
  simp only [Prod.mk.injEq] at shown
  obtain ⟨observed, ok, held⟩ := shown
  have in_order : sorted [olderServer, secondServer false] =
      [olderServer, secondServer false] := by decide
  have second_settled : Call.Settled myMachine world
      (.replaceLocal [olderServer, secondServer false] true .asInserted) := by
    refine ⟨by decide, by decide, by decide, ?_⟩
    intro before newcomer between holder after id split like new
    rw [in_order] at split
    cases before with
    | nil =>
        rw [← (List.cons.inj split).1] at new
        rw [new] at held
        cases held
    | cons head tail =>
        have lengths := congrArg List.length split
        simp at lengths
        omega
  obtain ⟨id, route, route', found, listener, -, found', listener', -, same, hostname, -⟩ :=
    server_keeps_url myMachine_injective (.single ⟨_, first_settled, first⟩) second_settled stepped
      ok (observed ▸ List.mem_singleton_self olderServer) (List.mem_cons_self ..) rfl rfl rfl rfl
  exact ⟨world, next, ⟨id, route⟩, ⟨id, route'⟩, stepped, AList.mem_lookup_iff.mp found, listener,
    AList.mem_lookup_iff.mp found', listener', same, hostname⟩

end Zeron.Preview
