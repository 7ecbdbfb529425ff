import Zeron.Preview.Hostnames

namespace Zeron.Preview

open Zeron.Data

/-! # Which listener a route stands for

Every service has an identifier of its own, and every listener a scan looks at gets
a route to a service that bears its fingerprint.
-/

variable {machine : Machine} {catalog : Catalog} {pass after : Pass} {seen : Observation}

/-! ## Identifiers are never shared -/

/-- Every service bears an identifier of its own, one of those drawn so far. -/
structure Names.Identified (machine : Machine) (drawn : Nat) (names : Names) : Prop where
  drawn : ∀ {cwd project service}, names.projects.lookup cwd = some project →
    service ∈ project.services → ∃ n < drawn, service.id = machine.newV4 n
  distinct : ∀ {cwd project}, names.projects.lookup cwd = some project →
    (project.services.map ServiceName.id).Nodup
  apart : ∀ {cwd cwd' project project' service service'},
    names.projects.lookup cwd = some project → names.projects.lookup cwd' = some project' →
    service ∈ project.services → service' ∈ project'.services → service.id = service'.id →
      cwd = cwd'

theorem Names.Identified.later {names : Names} {drawn drawn' : Nat}
    (identified : names.Identified machine drawn) (more : drawn ≤ drawn') :
    names.Identified machine drawn' := by
  refine ⟨fun held member => ?_, identified.distinct, identified.apart⟩
  obtain ⟨n, bound, same⟩ := identified.drawn held member
  exact ⟨n, by omega, same⟩

theorem Names.Identified.same {names : Names} {drawn : Nat}
    (identified : names.Identified machine drawn) {cwd cwd' : String}
    {project project' : ProjectName} {service service' : ServiceName}
    (held : names.projects.lookup cwd = some project)
    (held' : names.projects.lookup cwd' = some project') (member : service ∈ project.services)
    (member' : service' ∈ project'.services) (same : service.id = service'.id) :
    cwd = cwd' ∧ service = service' := by
  have here := identified.apart held held' member member' same
  subst here
  rw [held] at held'
  cases held'
  exact ⟨rfl, List.inj_on_of_nodup_map (identified.distinct held) member member' same⟩

theorem Names.Identified.addProject {names : Names} {drawn : Nat}
    (identified : names.Identified machine drawn) {cwd id label : String}  :
    ({ names with projects := names.projects.insert cwd ⟨id, label, []⟩ } : Names).Identified
      machine drawn := by
  have old : ∀ {other project service}, service ∈ project.services →
      (names.projects.insert cwd ⟨id, label, []⟩).lookup other = some project →
      names.projects.lookup other = some project := by
    intro other project service member found
    by_cases same : other = cwd
    · subst same
      rw [AList.lookup_insert] at found
      cases found
      simp at member
    · rwa [AList.lookup_insert_ne same] at found
  refine ⟨fun held member => identified.drawn (old member held) member, ?_,
    fun held held' member member' =>
      identified.apart (old member held) (old member' held') member member'⟩
  intro other project found
  by_cases same : other = cwd
  · subst same
    rw [AList.lookup_insert] at found
    cases found
    simp
  · exact identified.distinct ((AList.lookup_insert_ne same).symm.trans found)

theorem Names.Identified.addService (injective : Function.Injective machine.newV4) {names : Names}
    {drawn : Nat} (identified : names.Identified machine drawn) {cwd print label : String}
    {project : ProjectName} (held : names.projects.lookup cwd = some project) :
    ({ names with projects := names.projects.insert cwd { project with services :=
      project.services ++ [⟨machine.newV4 drawn, print, label⟩] } } : Names).Identified
        machine (drawn + 1) := by
  have unused : ∀ {other theirs service}, names.projects.lookup other = some theirs →
      service ∈ theirs.services → service.id ≠ machine.newV4 drawn := by
    intro other theirs service found member same
    obtain ⟨n, bound, mine⟩ := identified.drawn found member
    have equal := injective (mine.symm.trans same)
    omega
  have cases_of : ∀ {other theirs service}, service ∈ theirs.services →
      (names.projects.insert cwd { project with services :=
        project.services ++ [⟨machine.newV4 drawn, print, label⟩] }).lookup other = some theirs →
      (∃ old, names.projects.lookup other = some old ∧ service ∈ old.services) ∨
        other = cwd ∧ service.id = machine.newV4 drawn := by
    intro other theirs service member found
    by_cases same : other = cwd
    · subst same
      rw [AList.lookup_insert] at found
      cases found
      rcases List.mem_append.mp member with old | new
      · exact .inl ⟨project, held, old⟩
      · exact .inr ⟨rfl, by rw [List.mem_singleton.mp new]⟩
    · exact .inl ⟨theirs, (AList.lookup_insert_ne same).symm.trans found, member⟩
  refine ⟨?_, ?_, ?_⟩
  · intro other theirs service found member
    rcases cases_of member found with ⟨old, stored, inside⟩ | ⟨-, new⟩
    · obtain ⟨n, bound, same⟩ := identified.drawn stored inside
      exact ⟨n, by omega, same⟩
    · exact ⟨drawn, by omega, new⟩
  · intro other theirs found
    by_cases same : other = cwd
    · subst same
      rw [AList.lookup_insert] at found
      cases found
      simp only [List.map_append, List.map_cons, List.map_nil]
      refine (identified.distinct held).append (List.nodup_singleton _) ?_
      intro id member new
      obtain ⟨service, inside, rfl⟩ := List.mem_map.mp member
      exact unused held inside (List.mem_singleton.mp new)
    · exact identified.distinct ((AList.lookup_insert_ne same).symm.trans found)
  · intro first second theirs theirs' service service' found found' member member' same
    rcases cases_of member found with ⟨old, stored, inside⟩ | ⟨here, new⟩ <;>
      rcases cases_of member' found' with ⟨old', stored', inside'⟩ | ⟨there, new'⟩
    · exact identified.apart stored stored' inside inside' same
    · exact absurd (same.trans new') (unused stored inside)
    · exact absurd (same.symm.trans new) (unused stored' inside')
    · rw [here, there]

theorem Pass.Named.identified {cwd : String} (identified : pass.names.Identified machine pass.drawn)
    (named : pass.Named machine cwd after) :
    after.names.Identified machine after.drawn ∧ pass.drawn ≤ after.drawn := by
  cases named with
  | known => exact ⟨identified, le_refl _⟩
  | added => exact ⟨identified.addProject.later (Nat.le_succ _), Nat.le_succ _⟩

theorem Pass.Matched.identified (injective : Function.Injective machine.newV4)
    {project : ProjectName} {id : String} (identified : pass.names.Identified machine pass.drawn)
    (held : pass.names.projects.lookup (toStringLossy seen.root) = some project)
    (matched : pass.Matched machine catalog seen project id after) :
    after.names.Identified machine after.drawn ∧ pass.drawn ≤ after.drawn := by
  cases matched with
  | reused => exact ⟨identified, le_refl _⟩
  | named => exact ⟨identified.addService injective held, Nat.le_succ _⟩

theorem Pass.Placed.identified (injective : Function.Injective machine.newV4)
    (identified : pass.names.Identified machine pass.drawn)
    (placed : pass.Placed machine catalog seen after) :
    after.names.Identified machine after.drawn ∧ pass.drawn ≤ after.drawn := by
  cases placed with
  | again => exact ⟨identified, le_refl _⟩
  | routed once naming held matching =>
      rename_i named matched project final service
      obtain ⟨mid, grew⟩ := Pass.Named.identified (by exact identified) naming
      obtain ⟨last, grew'⟩ := matching.identified injective mid held
      exact ⟨last, grew.trans grew'⟩

/-! ## Fingerprints -/

/-- The services of a listener's project that bear its fingerprint, in their order. -/
def printsOf (machine : Machine) (names : Names) (seen : Observation) : List String :=
  match names.projects.lookup (toStringLossy seen.root) with
  | some project =>
      (project.services.filter fun service =>
        service.fingerprint = fingerprint machine seen.listener).map ServiceName.id
  | none => []

def alike (machine : Machine) (a b : Observation) : Bool :=
  decide (toStringLossy a.root = toStringLossy b.root ∧
    fingerprint machine a.listener = fingerprint machine b.listener)

theorem mem_printsOf {names : Names} {id : String} :
    id ∈ printsOf machine names seen ↔
      ∃ project service, names.projects.lookup (toStringLossy seen.root) = some project ∧
        service ∈ project.services ∧
        service.fingerprint = fingerprint machine seen.listener ∧ service.id = id := by
  unfold printsOf
  cases held : names.projects.lookup (toStringLossy seen.root) with
  | none => simp
  | some project =>
      simp only [List.mem_map, List.mem_filter, decide_eq_true_eq, Option.some_inj]
      constructor
      · rintro ⟨service, ⟨member, print⟩, same⟩
        exact ⟨project, service, rfl, member, print, same⟩
      · rintro ⟨_, service, rfl, member, print, same⟩
        exact ⟨service, ⟨member, print⟩, same⟩

theorem alike_iff {a b : Observation} :
    alike machine a b = true ↔ toStringLossy a.root = toStringLossy b.root ∧
      fingerprint machine a.listener = fingerprint machine b.listener := by
  simp [alike]

theorem printsOf_alike {names : Names} {a b : Observation} (same : alike machine a b = true) :
    printsOf machine names a = printsOf machine names b := by
  obtain ⟨root, print⟩ := alike_iff.mp same
  unfold printsOf
  rw [root, print]

/-! ## One listener of a scan -/

/-- The service a listener got in its turn. -/
structure Pass.Picks (machine : Machine) (catalog : Catalog) (pass : Pass) (seen : Observation)
    (after : Pass) (id : String) (route : LocalRoute) : Prop where
  next : after.next = pass.next.insert id route
  listener : route.listener = seen.listener
  cwd : route.service.projectCwd = toStringLossy seen.root
  own : route.service.id = id
  spots : after.seen = seen.spot :: pass.seen
  service : id ∈ printsOf machine after.names seen
  how : (∃ project, pass.names.projects.lookup (toStringLossy seen.root) = some project ∧
      project.reuse (fingerprint machine seen.listener) (previousId catalog.routes seen.listener)
        pass.next = some id) ∨
    (∀ project, pass.names.projects.lookup (toStringLossy seen.root) = some project →
      project.reuse (fingerprint machine seen.listener) (previousId catalog.routes seen.listener)
        pass.next = none) ∧
    ∃ n, pass.drawn ≤ n ∧ id = machine.newV4 n

theorem ProjectName.reuse_spec {project : ProjectName} {print id : String}
    {previous : Option String} {next : Table LocalRoute}
    (reuse : project.reuse print previous next = some id) :
    id ∉ next ∧ ∃ service ∈ project.services, service.fingerprint = print ∧ service.id = id := by
  obtain ⟨service, found, same⟩ := Option.map_eq_some_iff.mp reuse
  rcases Option.or_eq_some_iff.mp found with first | ⟨-, second⟩
  · have fits := List.find?_some first
    simp only [decide_eq_true_eq] at fits
    exact ⟨same ▸ fits.2.2, service, List.mem_of_find?_eq_some first, fits.1, same⟩
  · have fits := List.find?_some second
    simp only [decide_eq_true_eq] at fits
    exact ⟨same ▸ fits.2, service, List.mem_of_find?_eq_some second, fits.1, same⟩

theorem Pass.Matched.spec {project : ProjectName} {id : String}
    (held : pass.names.projects.lookup (toStringLossy seen.root) = some project)
    (matched : pass.Matched machine catalog seen project id after) :
    after.next = pass.next ∧ after.seen = pass.seen ∧ id ∈ printsOf machine after.names seen ∧
      (project.reuse (fingerprint machine seen.listener)
          (previousId catalog.routes seen.listener) pass.next = some id ∨
        project.reuse (fingerprint machine seen.listener)
          (previousId catalog.routes seen.listener) pass.next = none ∧
            id = machine.newV4 pass.drawn) := by
  cases matched with
  | reused reuse =>
      obtain ⟨-, other, member, print, own⟩ := ProjectName.reuse_spec reuse
      exact ⟨rfl, rfl, mem_printsOf.mpr ⟨project, other, held, member, print, own⟩, .inl reuse⟩
  | named unmatched =>
      exact ⟨rfl, rfl, mem_printsOf.mpr ⟨_, _, AList.lookup_insert _,
        List.mem_append_right _ (List.mem_singleton_self _), rfl, rfl⟩, .inr ⟨unmatched, rfl⟩⟩

theorem Pass.Placed.picks (placed : pass.Placed machine catalog seen after)
    (once : seen.spot ∉ pass.seen) :
    ∃ id route, pass.Picks machine catalog seen after id route := by
  cases placed with
  | again twice => exact absurd twice once
  | routed once naming held matching final_held found =>
      rename_i named matched project final service
      obtain ⟨next, spots, prints, how⟩ := matching.spec held
      refine ⟨service.id, routeFor catalog matched.names.deviceLabel final service seen, ?_⟩
      cases naming with
      | known =>
          refine ⟨by simp only [next], rfl, rfl, rfl, spots, prints, ?_⟩
          rcases how with reuse | ⟨unmatched, drawn⟩
          · exact .inl ⟨project, held, reuse⟩
          · refine .inr ⟨fun earlier there => ?_, pass.drawn, le_refl _, drawn⟩
            rw [← Option.some_inj.mp (held.symm.trans there)]
            exact unmatched
      | added absent =>
          refine ⟨by simp only [next], rfl, rfl, rfl, spots, prints, ?_⟩
          rw [AList.lookup_insert] at held
          cases held
          rcases how with reuse | ⟨-, drawn⟩
          · simp [ProjectName.reuse] at reuse
          · refine .inr ⟨fun earlier there => ?_, pass.drawn + 1, Nat.le_succ _, drawn⟩
            exact absurd (AList.lookup_isSome.mp (by simp [there])) absent

/-! ## Routes and the listeners they stand for -/

theorem printsOf_extends {names wider : Names} (grown : names.Extends wider) {id : String}
    (mine : id ∈ printsOf machine names seen) : id ∈ printsOf machine wider seen := by
  obtain ⟨project, service, held, member, print, own⟩ := mem_printsOf.mp mine
  obtain ⟨more, later⟩ := grown.projects held
  exact mem_printsOf.mpr ⟨_, service, later, List.mem_append_left _ member, print, own⟩

theorem Names.Identified.alike {names : Names} {drawn : Nat}
    (identified : names.Identified machine drawn) {a b : Observation} {id : String}
    (mine : id ∈ printsOf machine names a) (theirs : id ∈ printsOf machine names b) :
    alike machine a b = true := by
  obtain ⟨project, service, held, member, print, own⟩ := mem_printsOf.mp mine
  obtain ⟨project', service', held', member', print', own'⟩ := mem_printsOf.mp theirs
  obtain ⟨root, same⟩ := identified.same held held' member member' (own.trans own'.symm)
  exact alike_iff.mpr ⟨root, by rw [← print, ← print', same]⟩

/-- No process is seen under two roots. -/
def OneRoot (done : List Observation) : Prop :=
  ∀ a ∈ done, ∀ b ∈ done, a.listener.process = b.listener.process →
    components a.root = components b.root

/-- No process has two routes. -/
def Single (table : Table LocalRoute) : Prop :=
  ∀ {id id' route route'}, table.lookup id = some route → table.lookup id' = some route' →
    route.listener.process = route'.listener.process → id = id'

/-- The first listener of each spot has a route, and every route is some listener's. -/
structure Traces (machine : Machine) (names : Names) (done : List Observation)
    (table : Table LocalRoute) : Prop where
  routes : ∀ {id route}, table.lookup id = some route → route.service.id = id ∧
    ∃ seen, done.find? (fun other => other.spot = seen.spot) = some seen ∧
      route.listener = seen.listener ∧ route.service.projectCwd = toStringLossy seen.root ∧
        id ∈ printsOf machine names seen
  placed : ∀ {spot seen}, done.find? (fun other => other.spot = spot) = some seen →
    ∃ id route, table.lookup id = some route ∧ route.listener = seen.listener ∧
      route.service.projectCwd = toStringLossy seen.root
  single : OneRoot done → Single table

theorem Traces.extend {names wider : Names} {done : List Observation} {table : Table LocalRoute}
    (traces : Traces machine names done table) (grown : names.Extends wider) :
    Traces machine wider done table := by
  refine ⟨fun found => ?_, traces.placed, traces.single⟩
  obtain ⟨own, seen, first, listener, cwd, mine⟩ := traces.routes found
  exact ⟨own, seen, first, listener, cwd, printsOf_extends grown mine⟩

/-- The order the table is walked in does not matter. -/
theorem Traces.perm {names : Names} {done : List Observation} {table table' : Table LocalRoute}
    (traces : Traces machine names done table) (perm : table'.entries.Perm table.entries) :
    Traces machine names done table' := by
  have lookup : ∀ id, table'.lookup id = table.lookup id := fun id => AList.perm_lookup perm
  refine ⟨fun found => traces.routes ((lookup _).symm.trans found), fun first => ?_,
    fun roots id id' route route' found found' => ?_⟩
  · obtain ⟨id, route, found, rest⟩ := traces.placed first
    exact ⟨id, route, (lookup id).trans found, rest⟩
  · exact traces.single roots ((lookup id).symm.trans found) ((lookup id').symm.trans found')

structure Pass.Traced (machine : Machine) (done : List Observation) (pass : Pass) : Prop where
  identified : pass.names.Identified machine pass.drawn
  spots : ∀ {spot}, spot ∈ pass.seen ↔ ∃ seen ∈ done, seen.spot = spot
  traces : Traces machine pass.names done pass.next

theorem Pass.traced_start {names : Names} {drawn : Nat}
    (identified : names.Identified machine drawn) : (Pass.start names drawn).Traced machine [] :=
  ⟨identified, by simp [start], ⟨by simp [start], by simp, by simp [start, Single]⟩⟩

theorem Pass.Picks.fresh (injective : Function.Injective machine.newV4) {done : List Observation}
    {id : String} {route : LocalRoute} (traced : pass.Traced machine done)
    (picks : pass.Picks machine catalog seen after id route) : id ∉ pass.next := by
  intro taken
  rcases picks.how with ⟨project, -, reuse⟩ | ⟨-, n, later, drawn⟩
  · exact (ProjectName.reuse_spec reuse).1 taken
  · obtain ⟨held, found⟩ := Option.isSome_iff_exists.mp (AList.lookup_isSome.mpr taken)
    obtain ⟨-, other, -, -, -, mine⟩ := traced.traces.routes found
    obtain ⟨project, service, stored, member, -, own⟩ := mem_printsOf.mp mine
    obtain ⟨m, bound, same⟩ := traced.identified.drawn stored member
    have equal := injective ((same.symm.trans own).trans drawn)
    omega

theorem Pass.Picks.mem_next {id other : String} {route : LocalRoute}
    (picks : pass.Picks machine catalog seen after id route) :
    other ∈ after.next ↔ other = id ∨ other ∈ pass.next := by
  rw [picks.next, AList.mem_insert]

theorem Pass.Picks.lookup {id : String} {route : LocalRoute}
    (picks : pass.Picks machine catalog seen after id route) :
    after.next.lookup id = some route := by
  rw [picks.next, AList.lookup_insert]

theorem Pass.Picks.lookup_ne {id other : String} {route : LocalRoute}
    (picks : pass.Picks machine catalog seen after id route) (apart : other ≠ id) :
    after.next.lookup other = pass.next.lookup other := by
  rw [picks.next, AList.lookup_insert_ne apart]

/-- A route after one more listener is that listener's or an old one. -/
theorem Pass.Picks.cases {id other : String} {route held : LocalRoute}
    (picks : pass.Picks machine catalog seen after id route)
    (found : after.next.lookup other = some held) :
    other = id ∧ held = route ∨ pass.next.lookup other = some held := by
  by_cases same : other = id
  · subst same
    exact .inl ⟨rfl, Option.some_inj.mp (found.symm.trans picks.lookup)⟩
  · exact .inr ((picks.lookup_ne same).symm.trans found)

theorem find?_append_singleton {done : List Observation} {spot : List Component × Nat}
    {found : Observation}
    (first : (done ++ [seen]).find? (fun other => other.spot = spot) = some found) :
    done.find? (fun other => other.spot = spot) = some found ∨
      (∀ other ∈ done, other.spot ≠ spot) ∧ seen.spot = spot ∧ found = seen := by
  rw [List.find?_append] at first
  rcases Option.or_eq_some_iff.mp first with old | ⟨none, new⟩
  · exact .inl old
  · rw [List.find?_eq_none] at none
    have same := List.find?_some new
    have member := List.mem_of_find?_eq_some new
    rw [List.mem_singleton] at member
    subst member
    exact .inr ⟨fun other inside => by simpa using none other inside, by simpa using same, rfl⟩

theorem find?_append_of_some {done : List Observation} {spot : List Component × Nat}
    {found : Observation} (first : done.find? (fun other => other.spot = spot) = some found) :
    (done ++ [seen]).find? (fun other => other.spot = spot) = some found := by
  rw [List.find?_append, first, Option.some_or]

theorem Pass.Traced.placed (injective : Function.Injective machine.newV4)
    {done : List Observation} (traced : pass.Traced machine done)
    (placed : pass.Placed machine catalog seen after) : after.Traced machine (done ++ [seen]) := by
  by_cases once : seen.spot ∈ pass.seen
  · -- Another listener of this spot has been placed already.
    cases placed with
    | routed fresh => exact absurd once fresh
    | again =>
        obtain ⟨earlier, before, same⟩ := traced.spots.mp once
        refine ⟨traced.identified, ?_, ?_, fun first => ?_, fun roots => ?_⟩
        · intro spot
          rw [traced.spots]
          constructor
          · rintro ⟨other, member, here⟩
            exact ⟨other, List.mem_append_left _ member, here⟩
          · rintro ⟨other, member, here⟩
            rcases List.mem_append.mp member with old | new
            · exact ⟨other, old, here⟩
            · rw [List.mem_singleton.mp new] at here
              exact ⟨earlier, before, same.trans here⟩
        · intro id route found
          obtain ⟨own, holder, first, rest⟩ := traced.traces.routes found
          exact ⟨own, holder, find?_append_of_some first, rest⟩
        · rcases find?_append_singleton first with old | ⟨none, here, -⟩
          · exact traced.traces.placed old
          · exact absurd (same.trans here) (none earlier before)
        · exact traced.traces.single fun a memberA b memberB =>
            roots a (List.mem_append_left _ memberA) b (List.mem_append_left _ memberB)
  · obtain ⟨id, route, picks⟩ := placed.picks once
    have fresh := picks.fresh injective traced
    refine ⟨(placed.identified injective traced.identified).1, ?_, ?_, fun first => ?_,
      fun roots => ?_⟩
    · intro spot
      rw [picks.spots, List.mem_cons, traced.spots]
      constructor
      · rintro (rfl | ⟨other, member, here⟩)
        · exact ⟨seen, by simp, rfl⟩
        · exact ⟨other, List.mem_append_left _ member, here⟩
      · rintro ⟨other, member, here⟩
        rcases List.mem_append.mp member with old | new
        · exact .inr ⟨other, old, here⟩
        · rw [List.mem_singleton.mp new] at here
          exact .inl here.symm
    · intro other held found
      rcases picks.cases found with ⟨rfl, rfl⟩ | old
      · refine ⟨picks.own, seen, ?_, picks.listener, picks.cwd, picks.service⟩
        rw [List.find?_append, List.find?_eq_none.mpr, Option.none_or]
        · simp
        · intro earlier member
          simpa using fun same => once (traced.spots.mpr ⟨earlier, member, same⟩)
      · obtain ⟨own, holder, first, listener, cwd, prints⟩ := traced.traces.routes old
        exact ⟨own, holder, find?_append_of_some first, listener, cwd,
          printsOf_extends placed.extends prints⟩
    · rcases find?_append_singleton first with old | ⟨-, -, rfl⟩
      · obtain ⟨key, held, found, rest⟩ := traced.traces.placed old
        have apart : key ≠ id := by
          rintro rfl
          exact fresh (AList.lookup_isSome.mp (by simp [found]))
        exact ⟨key, held, (picks.lookup_ne apart).trans found, rest⟩
      · exact ⟨id, route, picks.lookup, picks.listener, picks.cwd⟩
    · have old_roots : OneRoot done := fun a memberA b memberB =>
        roots a (List.mem_append_left _ memberA) b (List.mem_append_left _ memberB)
      have elsewhere : ∀ {other held}, pass.next.lookup other = some held →
          held.listener.process ≠ route.listener.process := by
        intro other held found same
        obtain ⟨-, own, first, listener, -⟩ := traced.traces.routes found
        have member := List.mem_of_find?_eq_some first
        rw [listener, picks.listener] at same
        have root := roots own (List.mem_append_left _ member) seen (by simp) same
        have port : own.listener.port = seen.listener.port := congrArg (·.2.2) same
        exact once (traced.spots.mpr ⟨own, member, by rw [Observation.spot, root, port,
          Observation.spot]⟩)
      intro first second held held' found found' same
      rcases picks.cases found with ⟨rfl, rfl⟩ | old <;>
        rcases picks.cases found' with ⟨rfl, rfl⟩ | old'
      · rfl
      · exact absurd same.symm (elsewhere old')
      · exact absurd same (elsewhere old)
      · exact traced.traces.single old_roots old old' same

theorem Pass.Traced.scan (injective : Function.Injective machine.newV4) {names : Names}
    {drawn : Nat} {scan : List Observation} (identified : names.Identified machine drawn)
    (placed : (Pass.start names drawn).placeAll machine catalog scan = some after) :
    after.Traced machine scan ∧ drawn ≤ after.drawn := by
  have final := @Pass.placeAll_walk machine catalog _ _
    (fun done _ pass => pass.Traced machine done ∧ drawn ≤ pass.drawn) [] scan
    (fun _ held placed => ⟨held.1.placed injective placed,
      held.2.trans (placed.identified injective held.1.identified).2⟩)
    ⟨Pass.traced_start identified, le_refl _⟩ placed
  simpa using final

/-! ## Every call keeps the routes traced -/

structure World.Traced (machine : Machine) (world : World) : Prop where
  identified : world.catalog.names.Identified machine world.drawn
  file : ∀ {names}, world.file = some names → names.Identified machine world.drawn
  traces : Traces machine world.catalog.names (scanOf world.observed) world.catalog.routes

variable {world next : World}

theorem Names.Identified.congr {names other : Names} {drawn : Nat}
    (identified : names.Identified machine drawn) (same : other.projects = names.projects) :
    other.Identified machine drawn := by
  refine ⟨?_, ?_, ?_⟩
  · rw [same]
    exact identified.drawn
  · rw [same]
    exact identified.distinct
  · rw [same]
    exact identified.apart

theorem World.traced_opened {file : Option Names} {drawn : Nat}
    (identified : ∀ {names}, file = some names → names.Identified machine drawn)
    (deviceId deviceName : String) : (World.opened file deviceId deviceName drawn).Traced machine := by
  refine ⟨?_, identified, ⟨by simp [opened, openCatalog],
    by simp [opened, scanOf, sorted], by simp [opened, openCatalog, Single]⟩⟩
  have projects : (openCatalog file deviceId deviceName).names.projects =
      (file.getD (Names.fresh "")).projects := by
    unfold openCatalog
    simp only
    split <;> rfl
  refine Names.Identified.congr ?_ projects
  cases file with
  | none => exact ⟨by simp [Names.fresh], by simp [Names.fresh], by simp [Names.fresh]⟩
  | some names => exact identified rfl

theorem World.Traced.replaced (injective : Function.Injective machine.newV4)
    {observations : List Observation} {persists : Bool} {order : HashOrder}
    (traced : world.Traced machine)
    (replaced : world.Replaced machine observations persists order next) :
    next.Traced machine := by
  cases replaced with
  | unwritten scanned =>
      obtain ⟨pass, later⟩ := Pass.Traced.scan injective traced.identified scanned
      exact ⟨pass.identified, fun held => (traced.file held).later later,
        traced.traces.extend (Pass.placeAll_extends scanned)⟩
  | published scanned written =>
      rename_i pass
      obtain ⟨scan, later⟩ := Pass.Traced.scan injective traced.identified scanned
      refine ⟨scan.identified, ?_, scan.traces.perm (order.perm pass.next)⟩
      intro names held
      simp only at held
      split at held
      · cases held
        exact scan.identified
      · exact (traced.file held).later later

theorem World.Traced.advertised {device : String} {services : List PreviewService} {persists : Bool}
    (traced : world.Traced machine)
    (advertised : world.Advertised device services persists next) : next.Traced machine := by
  have same : ∀ names : Names, names.projects = world.catalog.names.projects →
      ({ world with catalog := { world.catalog with names := names } } : World).Traced machine := by
    intro names projects
    refine ⟨traced.identified.congr projects, traced.file, fun found => ?_, traced.traces.placed,
      traced.traces.single⟩
    have prints : ∀ seen, printsOf machine names seen =
        printsOf machine world.catalog.names seen := by
      intro seen
      rw [printsOf, printsOf, projects]
    obtain ⟨own, seen, first, listener, cwd, mine⟩ := traced.traces.routes found
    exact ⟨own, seen, first, listener, cwd, prints seen ▸ mine⟩
  cases advertised with
  | refused => exact ⟨traced.identified, traced.file, traced.traces⟩
  | nothing => exact ⟨traced.identified, traced.file, traced.traces⟩
  | known => exact ⟨traced.identified, traced.file, traced.traces⟩
  | written =>
      obtain ⟨identified, file, traces⟩ := same { world.catalog.names with
        peerLabels := world.catalog.names.peerLabels.insert device _ } rfl
      exact ⟨identified, fun held => by cases held; exact identified, traces⟩
  | unwritten =>
      obtain ⟨identified, file, traces⟩ := same { world.catalog.names with
        peerLabels := world.catalog.names.peerLabels.insert device _ } rfl
      exact ⟨identified, file, traces⟩

theorem World.Traced.step (injective : Function.Injective machine.newV4)
    (traced : world.Traced machine) {call : Call}
    (stepped : world.step machine call = some next) : next.Traced machine := by
  cases call with
  | replaceLocal observations persists order =>
      exact traced.replaced injective (replaceLocal_spec stepped)
  | setRemote device services persists => exact traced.advertised (setRemote_spec stepped)
  | removeRemote device =>
      cases stepped
      exact ⟨traced.identified, traced.file, traced.traces⟩
  | clearRemote =>
      cases stepped
      exact ⟨traced.identified, traced.file, traced.traces⟩
  | setProxyStatus port error =>
      cases stepped
      exact ⟨traced.identified, traced.file, traced.traces⟩
  | restart deviceId deviceName =>
      cases stepped
      exact World.traced_opened traced.file deviceId deviceName

theorem myMachine_injective : Function.Injective myMachine.newV4 := by
  intro a b same
  have texts := congrArg String.toList same
  simp only [myMachine, String.toList_append, List.append_cancel_left_eq] at texts
  have numbers := congrArg (fun digits => Nat.ofDigitChars 10 digits 0) texts
  simpa using numbers

end Zeron.Preview
