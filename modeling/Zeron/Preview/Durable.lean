import Zeron.Preview.Traces

namespace Zeron.Preview

open Zeron.Data

/-! # Names are on file once they are served

Names are added in memory before they are written, and a call writes when it has
added one itself.  Names a failed write left behind are served by the next call that
adds none.
-/

variable {machine : Machine} {catalog : Catalog} {pass after : Pass} {seen : Observation}
  {world next : World}

/-! ## The condition -/

/-- Whether a scan adds a name, and so writes. -/
def World.writes (machine : Machine) (world : World) (observations : List Observation) : Bool :=
  ((Pass.start world.catalog.names world.drawn).placeAll machine world.catalog
    (scanOf observations)).any Pass.changed

/-- A listener whose project, and every service it may be matched with, is on file. -/
def OnFile (machine : Machine) (file : Option Names) (names : Names) (seen : Observation) : Prop :=
  ∀ {project}, names.projects.lookup (toStringLossy seen.root) = some project →
    ∃ saved own, file = some saved ∧
      saved.projects.lookup (toStringLossy seen.root) = some own ∧
      printsOf machine saved seen = printsOf machine names seen

/-- A call that writes, or that finds on file what it may serve. -/
def Call.Backed (machine : Machine) (world : World) : Call → Prop
  | .replaceLocal observations _ _ =>
      world.writes machine observations = true ∨
        ∀ seen ∈ observations, OnFile machine world.file world.catalog.names seen
  | .setRemote device services _ =>
      ∀ {label}, services ≠ [] → advertisementOk device services = true →
        world.catalog.names.peerLabels.lookup device = some label →
          ∃ saved, world.file = some saved ∧ saved.peerLabels.lookup device = some label
  | _ => True

/-! ## Routes whose names are on file -/

def RouteSaved (file : Option Names) (id : String) (route : LocalRoute) : Prop :=
  ∃ saved project service, file = some saved ∧
    saved.projects.lookup route.service.projectCwd = some project ∧
    project.id = route.service.projectId ∧ service ∈ project.services ∧ service.id = id ∧
    route.service.hostname = hostnameOf saved.deviceLabel service.label

structure World.Filed (world : World) : Prop where
  behind : ∀ {saved}, world.file = some saved → saved.Extends world.catalog.names
  locals : ∀ {id route}, world.catalog.routes.lookup id = some route →
    RouteSaved world.file id route
  remotes : ∀ {device services}, world.catalog.remote.lookup device = some services →
    services ≠ [] → ∃ saved label, world.file = some saved ∧
      saved.peerLabels.lookup device = some label
  advertised : ∀ {device services}, world.advertised.lookup device = some services →
    device ≠ world.catalog.deviceId ∧ (services = [] ∧
        world.catalog.remote.lookup device = some [] ∨
      services ≠ [] ∧ services.length ≤ 256 ∧ advertisementOk device services = true ∧
        ∃ saved label, world.file = some saved ∧ saved.peerLabels.lookup device = some label ∧
          world.catalog.remote.lookup device = some (services.map (underLabel label)))

theorem Routed.saved {names : Names} {id : String} {route : LocalRoute}
    (routed : Routed names catalog id route) : RouteSaved (some names) id route := by
  obtain ⟨project, service, stored, member, same, -, own, -, hostname⟩ := routed
  exact ⟨names, project, service, rfl, stored, own.symm, member, same, hostname⟩

/-- A scan that changed nothing left the names alone. -/
theorem Pass.placeAll_unchanged {scan : List Observation}
    (placed : pass.placeAll machine catalog scan = some after) (start : pass.changed = false)
    (unchanged : after.changed = false) : after.names = pass.names ∧ after.drawn = pass.drawn := by
  have kept := @placeAll_keeps machine catalog pass after
    (fun mid => mid.changed = true ∨ mid.names = pass.names ∧ mid.drawn = pass.drawn) scan ?_
    (.inr ⟨rfl, rfl⟩) placed
  · rcases kept with changed | same
    · rw [unchanged] at changed
      cases changed
    · exact same
  · intro mid later seen _ held placed
    cases placed with
    | again => exact held
    | routed once naming stored matching =>
        rcases matching.changed with changed | rfl
        · exact .inl changed
        · cases naming with
          | known => exact held
          | added => exact .inl rfl

/-- A route of a scan that added nothing, to a service on file. -/
theorem route_saved {names saved : Names} {drawn : Nat}
    (identified : names.Identified machine drawn) (grown : saved.Extends names)
    {route : LocalRoute} {id : String} (routed : Routed names catalog id route)
    (prints : id ∈ printsOf machine saved seen)
    (cwd : route.service.projectCwd = toStringLossy seen.root) :
    RouteSaved (some saved) id route := by
  obtain ⟨own, service, stored, member, print, same⟩ := mem_printsOf.mp prints
  obtain ⟨more, later⟩ := grown.projects stored
  obtain ⟨project, other, held, inside, mine, -, projectId, -, hostname⟩ := routed
  rw [cwd] at held
  rw [later] at held
  cases held
  have equal := (identified.same later later inside (List.mem_append_left _ member)
    (mine.trans same.symm)).2
  refine ⟨saved, own, service, rfl, by rw [cwd]; exact stored, projectId.symm, member, same, ?_⟩
  rw [hostname, equal, grown.device]

theorem World.Filed.replaced (injective : Function.Injective machine.newV4)
    {observations : List Observation} {persists : Bool} {order : HashOrder} (sound : world.Sound)
    (traced : world.Traced machine) (filed : world.Filed)
    (backed : Call.Backed machine world (.replaceLocal observations persists order))
    (replaced : world.Replaced machine observations persists order next) : next.Filed := by
  cases replaced with
  | unwritten scanned =>
      exact ⟨fun held => (filed.behind held).trans (Pass.placeAll_extends scanned), filed.locals,
        filed.remotes, filed.advertised⟩
  | published scanned written =>
      rename_i pass
      have grown := Pass.placeAll_extends scanned
      have scan := (Pass.Sound.start sound.names world.drawn).scan scanned
      have found_before : ∀ {id route}, (order.arrange pass.next).lookup id = some route →
          pass.next.lookup id = some route :=
        fun found => (AList.perm_lookup (order.perm pass.next)).symm.trans found
      by_cases changed : pass.changed = true
      · have file : (if pass.changed then some pass.names else world.file) = some pass.names :=
          if_pos changed
        refine ⟨?_, ?_, ?_, ?_⟩
        · intro saved held
          rw [file] at held
          cases held
          exact .refl _
        · intro id route found
          simp only [file]
          exact (scan.routes (found_before found)).saved
        · intro device services found nonempty
          obtain ⟨saved, label, held, mine⟩ := filed.remotes found nonempty
          exact ⟨pass.names, label, file, grown.peers ((filed.behind held).peers mine)⟩
        · intro device services found
          obtain ⟨apart, rest⟩ := filed.advertised found
          refine ⟨apart, rest.imp_right ?_⟩
          rintro ⟨nonempty, short, ok, saved, label, held, mine, shown⟩
          exact ⟨nonempty, short, ok, pass.names, label, file,
            grown.peers ((filed.behind held).peers mine), shown⟩
      · have file : (if pass.changed then some pass.names else world.file) = world.file :=
          if_neg changed
        obtain ⟨names, drawn⟩ :=
          Pass.placeAll_unchanged scanned rfl (Bool.not_eq_true _ ▸ changed)
        have quiet : ∀ seen ∈ observations,
            OnFile machine world.file world.catalog.names seen := by
          refine backed.resolve_left ?_
          rw [writes, scanned, Option.any_some]
          exact changed
        obtain ⟨traces, -⟩ := Pass.Traced.scan injective traced.identified scanned
        refine ⟨?_, ?_, ?_, ?_⟩
        · intro saved held
          rw [file] at held
          simp only [names]
          exact filed.behind held
        · intro id route found
          have there := found_before found
          obtain ⟨-, seen, first, listener, cwd, prints⟩ := traces.traces.routes there
          have member : seen ∈ observations :=
            mem_sorted.mp (List.mem_of_mem_take (List.mem_of_find?_eq_some first))
          rw [names] at prints
          obtain ⟨project, service, stored, -⟩ := mem_printsOf.mp prints
          obtain ⟨saved, own, held, -, same⟩ := quiet seen member stored
          have routed := scan.routes there
          rw [names] at routed
          change RouteSaved (if pass.changed then some pass.names else world.file) id route
          rw [file, held]
          exact route_saved traced.identified (filed.behind held) routed (same ▸ prints) cwd
        · intro device services found nonempty
          simp only [file]
          exact filed.remotes found nonempty
        · intro device services found
          simp only [file]
          exact filed.advertised found

/-- An advertisement shown under a label that is on file. -/
theorem World.Filed.shown (filed : world.Filed) {device label : String} {saved : Names}
    {services : List PreviewService} (apart : device ≠ world.catalog.deviceId)
    (nonempty : services ≠ []) (short : services.length ≤ 256)
    (ok : advertisementOk device services = true) (held : world.file = some saved)
    (mine : saved.peerLabels.lookup device = some label) :
    (world.showRemote device services (services.map (underLabel label))).Filed := by
  refine ⟨filed.behind, filed.locals, ?_, ?_⟩
  · intro other shown found some
    by_cases same : other = device
    · subst same
      exact ⟨saved, label, held, mine⟩
    · exact filed.remotes ((AList.lookup_insert_ne same).symm.trans found) some
  · intro other raw found
    by_cases same : other = device
    · subst same
      rw [show raw = services from Option.some_inj.mp (found.symm.trans (AList.lookup_insert _))]
      exact ⟨apart, .inr ⟨nonempty, short, ok, saved, label, held, mine, AList.lookup_insert _⟩⟩
    · obtain ⟨apart', rest⟩ := filed.advertised ((AList.lookup_insert_ne same).symm.trans found)
      have kept : (world.catalog.remote.insert device (services.map (underLabel label))).lookup other =
          world.catalog.remote.lookup other := AList.lookup_insert_ne same
      rcases rest with ⟨empty, shown⟩ | ⟨some, short', ok', saved', label', held', mine', shown⟩
      · exact ⟨apart', .inl ⟨empty, kept.trans shown⟩⟩
      · exact ⟨apart', .inr ⟨some, short', ok', saved', label', held', mine', kept.trans shown⟩⟩

theorem World.Filed.advertised_step (machine : Machine) {device : String} {services : List PreviewService}
    {persists : Bool} (sound : world.Sound) (filed : world.Filed)
    (backed : Call.Backed machine world (.setRemote device services persists))
    (advertised : world.Advertised device services persists next) : next.Filed := by
  have added : ∀ {label : String}, world.catalog.names.peerLabels.lookup device = none →
      world.catalog.names.Extends { world.catalog.names with
        peerLabels := world.catalog.names.peerLabels.insert device label } := by
    intro label absent
    refine ⟨rfl, fun {other held} found => ?_, (Names.Extends.refl _).projects⟩
    have apart : other ≠ device := by
      rintro rfl
      rw [absent] at found
      cases found
    exact (AList.lookup_insert_ne apart).trans found
  cases advertised with
  | refused => exact ⟨filed.behind, filed.locals, filed.remotes, filed.advertised⟩
  | nothing apart empty =>
      refine ⟨filed.behind, filed.locals, ?_, ?_⟩
      · intro other shown found some
        by_cases same : other = device
        · subst same
          exact absurd (Option.some_inj.mp (found.symm.trans (AList.lookup_insert _))) some
        · exact filed.remotes ((AList.lookup_insert_ne same).symm.trans found) some
      · intro other raw found
        by_cases same : other = device
        · subst same
          rw [show raw = [] from Option.some_inj.mp (found.symm.trans (AList.lookup_insert _))]
          exact ⟨apart, .inl ⟨rfl, AList.lookup_insert _⟩⟩
        · obtain ⟨apart', rest⟩ :=
            filed.advertised ((AList.lookup_insert_ne same).symm.trans found)
          have kept : (world.catalog.remote.insert device []).lookup other =
              world.catalog.remote.lookup other := AList.lookup_insert_ne same
          rcases rest with ⟨empty', shown⟩ | ⟨some, short, ok, saved, label, held, mine, shown⟩
          · exact ⟨apart', .inl ⟨empty', kept.trans shown⟩⟩
          · exact ⟨apart', .inr ⟨some, short, ok, saved, label, held, mine, kept.trans shown⟩⟩
  | known apart nonempty short ok held =>
      obtain ⟨saved, file, mine⟩ := backed nonempty ok held
      exact filed.shown apart nonempty short ok file mine
  | written apart short ok member absent =>
      rename_i first label _ _
      have grown := @added label absent
      have later : ∀ {saved}, world.file = some saved → saved.Extends { world.catalog.names with
          peerLabels := world.catalog.names.peerLabels.insert device label } :=
        fun held => (filed.behind held).trans grown
      have mid : World.Filed { world with
          file := some { world.catalog.names with
            peerLabels := world.catalog.names.peerLabels.insert device label }
          catalog := { world.catalog with names := { world.catalog.names with
            peerLabels := world.catalog.names.peerLabels.insert device label } } } := by
        refine ⟨fun held => by cases held; exact .refl _, ?_, ?_, ?_⟩
        · intro id route found
          exact ((sound.routes found).extend grown).saved
        · intro other shown found some
          obtain ⟨saved, label', held, mine⟩ := filed.remotes found some
          exact ⟨_, label', rfl, (later held).peers mine⟩
        · intro other raw found
          obtain ⟨apart', rest⟩ := filed.advertised found
          refine ⟨apart', rest.imp_right ?_⟩
          rintro ⟨some, short', ok', saved, label', held, mine, shown⟩
          exact ⟨some, short', ok', _, label', rfl, (later held).peers mine, shown⟩
      exact mid.shown apart (List.ne_nil_of_mem member) short ok rfl (AList.lookup_insert _)
  | unwritten ok member absent =>
      exact ⟨fun held => (filed.behind held).trans (added absent), filed.locals, filed.remotes,
        filed.advertised⟩

theorem World.filed_opened {file : Option Names}
    (sound : ∀ {names}, file = some names → names.Sound) (deviceId deviceName : String)
    (drawn : Nat) : (World.opened file deviceId deviceName drawn).Filed := by
  refine ⟨?_, by simp [opened, openCatalog], by simp [opened, openCatalog], by simp [opened]⟩
  intro saved held
  have names : (openCatalog file deviceId deviceName).names = saved := by
    rw [openCatalog_names sound, show file = some saved from held, Option.getD_some]
  change saved.Extends (openCatalog file deviceId deviceName).names
  rw [names]
  exact .refl _

/-- What runs of such calls keep. -/
structure World.Backed (machine : Machine) (world : World) : Prop where
  sound : world.Sound
  traced : world.Traced machine
  filed : world.Filed

theorem World.Backed.step (injective : Function.Injective machine.newV4) (kept : world.Backed machine)
    {call : Call} (backed : Call.Backed machine world call)
    (stepped : world.step machine call = some next) : next.Backed machine := by
  refine ⟨kept.sound.step stepped, kept.traced.step injective stepped, ?_⟩
  have filed := kept.filed
  cases call with
  | replaceLocal observations persists order =>
      exact filed.replaced injective kept.sound kept.traced backed (replaceLocal_spec stepped)
  | setRemote device services persists =>
      exact filed.advertised_step machine kept.sound backed (setRemote_spec stepped)
  | removeRemote device =>
      cases stepped
      refine ⟨filed.behind, filed.locals, ?_, ?_⟩
      · intro other services found nonempty
        by_cases same : other = device
        · subst same
          simp [removeRemote, Catalog.publish] at found
        · exact filed.remotes ((AList.lookup_erase_ne same).symm.trans found) nonempty
      · intro other raw found
        by_cases same : other = device
        · subst same
          simp [removeRemote] at found
        · have kept : (world.catalog.remote.erase device).lookup other =
              world.catalog.remote.lookup other := AList.lookup_erase_ne same
          obtain ⟨apart, rest⟩ := filed.advertised ((AList.lookup_erase_ne same).symm.trans found)
          rcases rest with ⟨empty, shown⟩ | ⟨some, short, ok, saved, label, held, mine, shown⟩
          · exact ⟨apart, .inl ⟨empty, kept.trans shown⟩⟩
          · exact ⟨apart, .inr ⟨some, short, ok, saved, label, held, mine, kept.trans shown⟩⟩
  | clearRemote =>
      cases stepped
      exact ⟨filed.behind, filed.locals, by simp [clearRemote, Catalog.publish],
        by simp [clearRemote]⟩
  | setProxyStatus port error =>
      cases stepped
      exact ⟨filed.behind, filed.locals, filed.remotes, filed.advertised⟩
  | restart deviceId deviceName =>
      cases stepped
      exact filed_opened kept.sound.file deviceId deviceName world.drawn

/-! ## The same scan after a restart -/

/-- A listener and the service its route stands on. -/
def Catalog.holds (catalog : Catalog) (seen : Observation) (id : String) : Prop :=
  ∃ route, catalog.routes.lookup id = some route ∧ route.listener = seen.listener ∧
    route.service.projectCwd = toStringLossy seen.root

/-- Listeners with one command line hold their services in the order of the file: what
the file lists before a listener's service is held by listeners before it. -/
structure World.Lined (machine : Machine) (world : World) : Prop where
  once : OneRoot world.observed
  order : ∀ {saved before seen after id}, world.file = some saved →
    scanOf world.observed = before ++ seen :: after → world.catalog.holds seen id →
      ∀ other ∈ (printsOf machine saved seen).takeWhile (· ≠ id),
        ∃ earlier ∈ before, world.catalog.holds earlier other

/-- The first service that fits and is free, where everything before it is taken. -/
theorem find?_next {services : List ServiceName} {print id : String} {table : Table LocalRoute}
    (unused : id ∉ table)
    (mine : id ∈ (services.filter fun service => service.fingerprint = print).map ServiceName.id)
    (before : ∀ other ∈ ((services.filter fun service => service.fingerprint = print).map
      ServiceName.id).takeWhile (· ≠ id), other ∈ table) :
    ∃ service, services.find? (fun service =>
      service.fingerprint = print ∧ service.id ∉ table) = some service ∧ service.id = id := by
  induction services with
  | nil => simp at mine
  | cons first rest ih =>
      by_cases fits : first.fingerprint = print
      · rw [List.filter_cons_of_pos (by simpa using fits), List.map_cons] at mine before
        by_cases here : first.id = id
        · exact ⟨first, List.find?_cons_of_pos (by simp [fits, here, unused]), here⟩
        · rw [List.takeWhile_cons_of_pos (by simpa using here)] at before
          have taken := before first.id (List.mem_cons_self ..)
          obtain ⟨service, found, same⟩ := ih
            ((List.mem_cons.mp mine).resolve_left (Ne.symm here))
            (fun other member => before other (List.mem_cons_of_mem _ member))
          exact ⟨service, by rw [List.find?_cons_of_neg (by simp [taken])]; exact found, same⟩
      · rw [List.filter_cons_of_neg (by simpa using fits)] at mine before
        obtain ⟨service, found, same⟩ := ih mine before
        exact ⟨service, by rw [List.find?_cons_of_neg (by simp [fits])]; exact found, same⟩

theorem ProjectName.reuse_none {project : ProjectName} {print id : String}
    {table : Table LocalRoute}
    (found : ∃ service, project.services.find? (fun service =>
      service.fingerprint = print ∧ service.id ∉ table) = some service ∧ service.id = id) :
    project.reuse print none table = some id := by
  obtain ⟨service, first, same⟩ := found
  have nothing : (project.services.find? fun service => service.fingerprint = print ∧
      none = some service.id ∧ service.id ∉ table) = none := by
    rw [List.find?_eq_none]
    simp
  rw [reuse, nothing, Option.none_or, first, Option.map_some, same]

/-- A listener that is matched with a stored service, step by step. -/
theorem Pass.place_reused {project : ProjectName} {service : ServiceName} {id : String}
    (once : seen.spot ∉ pass.seen)
    (held : pass.names.projects.lookup (toStringLossy seen.root) = some project)
    (reuse : project.reuse (fingerprint machine seen.listener)
      (previousId catalog.routes seen.listener) pass.next = some id)
    (found : project.services.find? (fun other => other.id = id) = some service) :
    pass.place machine catalog seen = some { pass with
      seen := seen.spot :: pass.seen
      next := pass.next.insert id (routeFor catalog pass.names.deviceLabel project service seen) } := by
  have known : toStringLossy seen.root ∈ pass.names.projects :=
    AList.lookup_isSome.mp (by simp [held])
  simp [place, once, nameProject, known, held, reuse, record, found]

section Replay

variable {saved : Names} {done todo : List Observation}

/-- A replay half way: it has given each listener what it held before the restart. -/
structure Replay (world : World) (saved : Names) (done : List Observation) (pass : Pass) :
    Prop where
  names : pass.names = saved
  unchanged : pass.changed = false
  spots : ∀ {spot}, spot ∈ pass.seen ↔ ∃ seen ∈ done, seen.spot = spot
  keys : ∀ {id}, id ∈ pass.next ↔ ∃ seen ∈ done, world.catalog.holds seen id
  same : ∀ {id route'}, pass.next.lookup id = some route' →
    ∃ route, world.catalog.routes.lookup id = some route ∧ route'.listener = route.listener ∧
      route'.service.id = route.service.id ∧ route'.service.projectId = route.service.projectId ∧
      route'.service.hostname = route.service.hostname

/-- The listener's route before the restart, if it is the first of its spot. -/
theorem World.Traced.held (traced : world.Traced machine)
    (split : scanOf world.observed = done ++ seen :: todo)
    (once : ∀ other ∈ done, other.spot ≠ seen.spot) :
    ∃ id route, world.catalog.routes.lookup id = some route ∧ route.listener = seen.listener ∧
      route.service.projectCwd = toStringLossy seen.root ∧ route.service.id = id ∧
      id ∈ printsOf machine world.catalog.names seen := by
  have first : (scanOf world.observed).find? (fun other => other.spot = seen.spot) = some seen := by
    rw [split, List.find?_append, List.find?_eq_none.mpr, Option.none_or]
    · simp
    · intro other member
      simpa using once other member
  obtain ⟨id, route, found, listener, cwd⟩ := traced.traces.placed first
  obtain ⟨own, other, -, listener', cwd', prints⟩ := traced.traces.routes found
  have like : alike machine seen other = true := by
    refine alike_iff.mpr ⟨by rw [← cwd, cwd'], ?_⟩
    rw [← listener, listener']
  exact ⟨id, route, found, listener, cwd, own, by rw [printsOf_alike like]; exact prints⟩

theorem Replay.place (kept : world.Backed machine) (lined : world.Lined machine)
    (file : world.file = some saved) {reopened : Catalog} (empty : reopened.routes = ∅)
    (split : scanOf world.observed = done ++ seen :: todo) (replay : Replay world saved done pass) :
    ∃ after, pass.place machine reopened seen = some after ∧
      Replay world saved (done ++ [seen]) after := by
  have inside : ∀ other ∈ done ++ seen :: todo, other ∈ world.observed := by
    intro other member
    exact mem_sorted.mp (List.mem_of_mem_take (split ▸ member))
  have one_spot : ∀ a ∈ done ++ seen :: todo, ∀ b ∈ done ++ seen :: todo,
      a.listener = b.listener → a.spot = b.spot := by
    intro a memberA b memberB same
    have roots := lined.once a (inside a memberA) b (inside b memberB) (by rw [same])
    rw [Observation.spot, Observation.spot, roots, same]
  have here : seen ∈ done ++ seen :: todo := by simp
  by_cases twice : seen.spot ∈ pass.seen
  · -- Passed over, and it holds only what the first listener of its spot does.
    obtain ⟨earlier, before, same⟩ := replay.spots.mp twice
    refine ⟨pass, by simp [Pass.place, twice], replay.names, replay.unchanged, ?_, ?_, replay.same⟩
    · intro spot
      rw [replay.spots]
      constructor
      · rintro ⟨other, member, spot_is⟩
        exact ⟨other, List.mem_append_left _ member, spot_is⟩
      · rintro ⟨other, member, spot_is⟩
        rcases List.mem_append.mp member with old | new
        · exact ⟨other, old, spot_is⟩
        · rw [List.mem_singleton.mp new] at spot_is
          exact ⟨earlier, before, same.trans spot_is⟩
    · intro id
      rw [replay.keys]
      constructor
      · rintro ⟨other, member, holds⟩
        exact ⟨other, List.mem_append_left _ member, holds⟩
      · rintro ⟨other, member, holds⟩
        rcases List.mem_append.mp member with old | new
        · exact ⟨other, old, holds⟩
        · rw [List.mem_singleton.mp new] at holds
          obtain ⟨route, found, listener, cwd⟩ := holds
          obtain ⟨-, first, firstly, listener', cwd', -⟩ := kept.traced.traces.routes found
          have member' := List.mem_of_find?_eq_some firstly
          rw [split] at firstly member'
          have spots := one_spot first member' seen here (listener'.symm.trans listener)
          rw [List.find?_append] at firstly
          rcases Option.or_eq_some_iff.mp firstly with old | ⟨none, -⟩
          · exact ⟨first, List.mem_of_find?_eq_some old, route, found, listener', cwd'⟩
          · rw [List.find?_eq_none] at none
            exact absurd (by simpa using same.trans spots.symm) (none earlier before)
  · have once : ∀ other ∈ done, other.spot ≠ seen.spot :=
      fun other member same => twice (replay.spots.mpr ⟨other, member, same⟩)
    obtain ⟨id, route, found, listener, cwd, own, prints⟩ := kept.traced.held split once
    obtain ⟨_, project, service, held, stored, projectId, member, same, hostname⟩ :=
      kept.filed.locals found
    rw [file] at held
    cases held
    rw [cwd] at stored
    obtain ⟨more, grown⟩ := (kept.filed.behind file).projects stored
    have print : service.fingerprint = fingerprint machine seen.listener := by
      obtain ⟨memory, other, held, inside', print, own'⟩ := mem_printsOf.mp prints
      rw [grown] at held
      cases held
      rw [(kept.traced.identified.same grown grown (List.mem_append_left _ member) inside'
        (same.trans own'.symm)).2, print]
    have unused : id ∉ pass.next := by
      intro taken
      obtain ⟨other, before, route', found', listener', -⟩ := replay.keys.mp taken
      rw [found] at found'
      cases found'
      exact once other before (one_spot other (List.mem_append_left _ before) seen here
        (listener'.symm.trans listener))
    have prints_saved : printsOf machine saved seen =
        (project.services.filter fun service =>
          service.fingerprint = fingerprint machine seen.listener).map ServiceName.id := by
      simp [printsOf, stored]
    have reuse : project.reuse (fingerprint machine seen.listener)
        (previousId reopened.routes seen.listener) pass.next = some id := by
      rw [show previousId reopened.routes seen.listener = none by simp [previousId, empty]]
      apply ProjectName.reuse_none
      apply find?_next unused
      · exact List.mem_map.mpr ⟨service, List.mem_filter.mpr ⟨member, by simpa using print⟩, same⟩
      · intro other earlier
        rw [← prints_saved] at earlier
        exact replay.keys.mpr (lined.order file split ⟨route, found, listener, cwd⟩ other earlier)
    have by_id : project.services.find? (fun other => other.id = id) = some service := by
      have some : (project.services.find? fun other => other.id = id).isSome = true := by
        rw [List.find?_isSome]
        exact ⟨service, member, by simpa using same⟩
      obtain ⟨other, first⟩ := Option.isSome_iff_exists.mp some
      have equal : other.id = id := by simpa using List.find?_some first
      rw [first, ((kept.traced.file file).same stored stored (List.mem_of_find?_eq_some first)
        member (equal.trans same.symm)).2]
    have stored_here : pass.names.projects.lookup (toStringLossy seen.root) = some project := by
      rw [replay.names]
      exact stored
    have placed := Pass.place_reused twice stored_here reuse by_id
    refine ⟨_, placed, replay.names, replay.unchanged, ?_, ?_, ?_⟩
    · intro spot
      rw [List.mem_cons, replay.spots]
      constructor
      · rintro (rfl | ⟨other, before, spot_is⟩)
        · exact ⟨seen, by simp, rfl⟩
        · exact ⟨other, List.mem_append_left _ before, spot_is⟩
      · rintro ⟨other, member', spot_is⟩
        rcases List.mem_append.mp member' with old | new
        · exact .inr ⟨other, old, spot_is⟩
        · rw [List.mem_singleton.mp new] at spot_is
          exact .inl spot_is.symm
    · intro key
      rw [AList.mem_insert, replay.keys]
      constructor
      · rintro (rfl | ⟨other, before, holds⟩)
        · exact ⟨seen, by simp, route, found, listener, cwd⟩
        · exact ⟨other, List.mem_append_left _ before, holds⟩
      · rintro ⟨other, member', holds⟩
        rcases List.mem_append.mp member' with old | new
        · exact .inr ⟨other, old, holds⟩
        · rw [List.mem_singleton.mp new] at holds
          obtain ⟨route', found', listener', -⟩ := holds
          refine .inl (kept.traced.traces.single ?_ found' found (by rw [listener, listener']))
          intro a memberA b memberB
          rw [split] at memberA memberB
          exact lined.once a (inside a memberA) b (inside b memberB)
    · intro key route' looked
      by_cases here' : key = id
      · subst here'
        rw [AList.lookup_insert] at looked
        cases looked
        refine ⟨route, found, listener.symm, own.symm ▸ same, projectId, ?_⟩
        rw [hostname, replay.names]
        rfl
      · rw [AList.lookup_insert_ne here'] at looked
        exact replay.same looked

theorem Replay.scan (kept : world.Backed machine) (lined : world.Lined machine)
    (file : world.file = some saved) {reopened : Catalog} (empty : reopened.routes = ∅)
    (split : scanOf world.observed = done ++ todo) (replay : Replay world saved done pass) :
    ∃ after, pass.placeAll machine reopened todo = some after ∧
      Replay world saved (scanOf world.observed) after := by
  induction todo generalizing done pass with
  | nil => exact ⟨pass, rfl, by rw [split, List.append_nil]; exact replay⟩
  | cons seen rest ih =>
      obtain ⟨mid, placed, next⟩ := replay.place kept lined file empty split
      obtain ⟨after, scanned, final⟩ := ih (by rw [split]; simp) next
      exact ⟨after, Option.bind_eq_some_iff.mpr ⟨mid, placed, scanned⟩, final⟩

end Replay

/-! ## Runs -/

/-- Every name the snapshot uses is on file. -/
def World.NamesOnFile (world : World) : Prop :=
  ∀ service ∈ world.catalog.snapshot.services,
    (service.deviceId = world.catalog.deviceId →
      ∃ saved project name, world.file = some saved ∧
        saved.projects.lookup service.projectCwd = some project ∧
        project.id = service.projectId ∧
        (∃ memory, world.catalog.names.projects.lookup service.projectCwd = some memory ∧
          project.label = memory.label) ∧
        name ∈ project.services ∧ name.id = service.id ∧
        service.hostname = hostnameOf saved.deviceLabel name.label) ∧
    (service.deviceId ≠ world.catalog.deviceId →
      ∃ saved, world.file = some saved ∧
        saved.peerLabels.lookup service.deviceId = some (deviceLabelOf service.hostname))

/-- What a listener is published under. -/
def LocalRoute.published (route : LocalRoute) : String × String × String × Listener :=
  (route.service.id, route.service.projectId, route.service.hostname, route.listener)

theorem World.Backed.namesOnFile (kept : world.Backed machine) : world.NamesOnFile := by
  intro service member
  rw [kept.sound.published.mem_iff, List.mem_append, List.mem_map] at member
  constructor
  · intro own
    rcases member with ⟨⟨id, route⟩, stored, rfl⟩ | remote
    · obtain ⟨saved, project, name, file, held, projectId, inside, same, hostname⟩ :=
        kept.filed.locals (AList.mem_lookup_iff.mpr stored)
      obtain ⟨more, grown⟩ := (kept.filed.behind file).projects held
      have mine := (kept.traced.traces.routes (AList.mem_lookup_iff.mpr stored)).1
      exact ⟨saved, project, name, file, held, projectId, ⟨_, grown, rfl⟩, inside,
        same.trans mine.symm, hostname⟩
    · exact absurd own (kept.sound.remote_device remote).1
  · intro foreign
    rcases member with ⟨entry, stored, rfl⟩ | remote
    · exact absurd (kept.sound.route_device stored).1 foreign
    · have label := (kept.sound.remote_device remote).2.2
      obtain ⟨⟨device, services⟩, entry, inside⟩ := List.mem_flatMap.mp remote
      have found := AList.mem_lookup_iff.mpr entry
      obtain ⟨saved, theirs, file, held⟩ :=
        kept.filed.remotes found (List.ne_nil_of_mem inside)
      have owner := ((kept.sound.remote found).2 service inside).1
      have memory := (kept.filed.behind file).peers held
      rw [owner, memory] at label
      exact ⟨saved, file, by rw [owner, held, label]⟩

theorem World.Backed.reopened (kept : world.Backed machine) {saved : Names}
    (file : world.file = some saved) (deviceId deviceName : String) :
    (openCatalog world.file deviceId deviceName).names = saved := by
  rw [openCatalog_names kept.sound.file, file, Option.getD_some]

/-- The same listeners get the same names after a restart. -/
theorem World.Backed.rescanned (kept : world.Backed machine) (lined : world.Lined machine)
    (deviceName : String) (persists : Bool) (order : HashOrder) :
    ∃ replayed, (World.opened world.file world.catalog.deviceId deviceName world.drawn).step machine
        (.replaceLocal world.observed persists order) = some replayed ∧
      replayed.reply = .ok ∧
      ∀ id, (replayed.catalog.routes.lookup id).map LocalRoute.published =
        (world.catalog.routes.lookup id).map LocalRoute.published := by
  have called : ∀ {after : Pass},
      (Pass.start (openCatalog world.file world.catalog.deviceId deviceName).names
        world.drawn).placeAll machine (openCatalog world.file world.catalog.deviceId deviceName)
          (scanOf world.observed) = some after → after.changed = false →
      ∃ replayed, (World.opened world.file world.catalog.deviceId deviceName world.drawn).step
          machine (.replaceLocal world.observed persists order) = some replayed ∧
        replayed.reply = .ok ∧
        ∀ id, replayed.catalog.routes.lookup id = after.next.lookup id := by
    intro after scanned unchanged
    have stepped := @World.replaceLocal_unchanged machine
      (World.opened world.file world.catalog.deviceId deviceName world.drawn) world.observed
      persists order after scanned unchanged
    exact ⟨_, stepped, rfl, fun id => AList.perm_lookup (order.perm after.next)⟩
  cases file : world.file with
  | none =>
      have nothing : ∀ id, world.catalog.routes.lookup id = none := by
        intro id
        cases found : world.catalog.routes.lookup id with
        | none => rfl
        | some route =>
            obtain ⟨saved, -, -, held, -⟩ := kept.filed.locals found
            rw [file] at held
            cases held
      have quiet : scanOf world.observed = [] := by
        cases scan : scanOf world.observed with
        | nil => rfl
        | cons first rest =>
            obtain ⟨id, route, found, -⟩ :=
              @World.Traced.held machine first world [] rest kept.traced scan (by simp)
            rw [nothing id] at found
            cases found
      obtain ⟨replayed, stepped, ok, lookup⟩ := @called (Pass.start _ _) (by rw [quiet]; rfl) rfl
      rw [← file]
      refine ⟨replayed, stepped, ok, fun id => ?_⟩
      rw [lookup, nothing]
      rfl
  | some saved =>
      have names := kept.reopened file world.catalog.deviceId deviceName
      have start : Replay world saved []
          (Pass.start (openCatalog world.file world.catalog.deviceId deviceName).names
            world.drawn) :=
        ⟨names, rfl, by simp [Pass.start], by simp [Pass.start], by simp [Pass.start]⟩
      obtain ⟨after, scanned, replay⟩ := start.scan kept lined file
        (show (openCatalog world.file world.catalog.deviceId deviceName).routes = ∅ from rfl)
        (List.nil_append _).symm
      obtain ⟨replayed, stepped, ok, lookup⟩ := called scanned replay.unchanged
      rw [← file]
      refine ⟨replayed, stepped, ok, fun id => ?_⟩
      rw [lookup]
      cases found : after.next.lookup id with
      | some route' =>
          obtain ⟨route, held, listener, own, projectId, hostname⟩ := replay.same found
          rw [held, Option.map_some, Option.map_some, LocalRoute.published, LocalRoute.published,
            listener, own, projectId, hostname]
      | none =>
          cases held : world.catalog.routes.lookup id with
          | none => rfl
          | some route =>
              obtain ⟨-, seen, first, listener, cwd, -⟩ := kept.traced.traces.routes held
              have there := replay.keys.mpr
                ⟨seen, List.mem_of_find?_eq_some first, route, held, listener, cwd⟩
              exact absurd there (AList.lookup_eq_none.mp found)

/-- The same advertisement gets the same hostnames after a restart. -/
theorem World.Backed.readvertised (kept : world.Backed machine) (deviceName : String)
    (persists : Bool) {device : String} {services : List PreviewService}
    (advertised : world.advertised.lookup device = some services) :
    ∃ replayed, (World.opened world.file world.catalog.deviceId deviceName world.drawn).step machine
        (.setRemote device services persists) = some replayed ∧
      replayed.reply = .ok ∧
      replayed.catalog.remote.lookup device = world.catalog.remote.lookup device := by
  obtain ⟨apart, rest⟩ := kept.filed.advertised advertised
  rcases rest with ⟨rfl, shown⟩ | ⟨nonempty, short, ok, saved, label, file, held, shown⟩
  · exact ⟨_, World.setRemote_nothing persists apart, rfl, (AList.lookup_insert _).trans shown.symm⟩
  · have names := kept.reopened file world.catalog.deviceId deviceName
    have label_held : (World.opened world.file world.catalog.deviceId deviceName
        world.drawn).catalog.names.peerLabels.lookup device = some label := by
      rw [show (World.opened world.file world.catalog.deviceId deviceName
        world.drawn).catalog.names = saved from names]
      exact held
    exact ⟨_, World.setRemote_known apart nonempty short ok label_held, rfl,
      (AList.lookup_insert _).trans shown.symm⟩

/-- In every run whose successful calls write or serve what is on file, every name
served is on file, and a restart serves the same listeners and advertisements under the
same names. -/
theorem names_durable (injective : Function.Injective machine.newV4)
    {deviceId deviceName : String} {drawn : Nat}
    (runs : Reaches (World.step machine) (Call.Backed machine)
      (World.opened none deviceId deviceName drawn) world) :
    world.NamesOnFile ∧
    (world.Lined machine → ∀ (renamed : String) (persists : Bool) (order : HashOrder),
      ∃ replayed, (World.opened world.file world.catalog.deviceId renamed world.drawn).step machine
          (.replaceLocal world.observed persists order) = some replayed ∧
        replayed.reply = .ok ∧
        ∀ id, (replayed.catalog.routes.lookup id).map LocalRoute.published =
          (world.catalog.routes.lookup id).map LocalRoute.published) ∧
    (∀ (renamed : String) (persists : Bool) (device : String) (services : List PreviewService),
      world.advertised.lookup device = some services →
      ∃ replayed, (World.opened world.file world.catalog.deviceId renamed world.drawn).step machine
          (.setRemote device services persists) = some replayed ∧
        replayed.reply = .ok ∧
        replayed.catalog.remote.lookup device = world.catalog.remote.lookup device) := by
  have start : (World.opened none deviceId deviceName drawn).Backed machine :=
    ⟨World.sound_opened (by simp) deviceId deviceName drawn,
      World.traced_opened (by simp) deviceId deviceName,
      World.filed_opened (by simp) deviceId deviceName drawn⟩
  have kept : world.Backed machine :=
    runs.keeps start (fun _ _ _ held backed stepped => held.step injective backed stepped)
  exact ⟨kept.namesOnFile, fun lined renamed persists order =>
    kept.rescanned lined renamed persists order,
    fun renamed persists device services advertised =>
      kept.readvertised renamed persists advertised⟩

def viteServer : Observation := ⟨myApp, myListener 5173 1 "vite"⟩

/-- The write fails, the next scan has nothing to add, and what it serves is on no file:
after a restart the same server has another identifier. -/
theorem names_lost_after_failed_write :
    ∃ world replayed : World, Reaches (World.step myMachine) (fun _ _ => True)
        (World.opened none "device" "MacBook" 0) world ∧
      world.reply = .ok ∧ world.file = none ∧
      world.catalog.snapshot.services.map PreviewService.id = [myMachine.newV4 1] ∧
      ¬ world.NamesOnFile ∧
      (World.opened world.file world.catalog.deviceId "MacBook" world.drawn).step myMachine
        (.replaceLocal world.observed true .asInserted) = some replayed ∧
      replayed.catalog.snapshot.services.map PreviewService.id = [myMachine.newV4 3] := by
  have ran : ((runAll (World.step myMachine) (fun _ _ => true)
      (World.opened none "device" "MacBook" 0)
      [.replaceLocal [viteServer] false .asInserted,
        .replaceLocal [viteServer] true .asInserted]).bind fun world =>
      ((World.opened world.file world.catalog.deviceId "MacBook" world.drawn).step myMachine
        (.replaceLocal world.observed true .asInserted)).map fun replayed =>
      decide (world.reply = .ok ∧ world.file = none ∧
        world.catalog.snapshot.services.map PreviewService.id = [myMachine.newV4 1] ∧
        (world.catalog.snapshot.services.all fun service =>
          service.deviceId = world.catalog.deviceId) = true ∧
        replayed.catalog.snapshot.services.map PreviewService.id = [myMachine.newV4 3])) =
      some true := by decide
  obtain ⟨world, ran, rest⟩ := Option.bind_eq_some_iff.mp ran
  obtain ⟨replayed, stepped, shown⟩ := Option.map_eq_some_iff.mp rest
  obtain ⟨ok, file, ids, own, ids'⟩ := of_decide_eq_true shown
  refine ⟨world, replayed, (reaches_of_runAll ran).mono (fun _ _ _ => trivial), ok, file, ids, ?_,
    stepped, ids'⟩
  intro onFile
  obtain ⟨service, member, -⟩ := List.mem_map.mp (ids ▸ List.mem_singleton_self _)
  have mine : service.deviceId = world.catalog.deviceId := by
    simpa using List.all_eq_true.mp own service member
  obtain ⟨saved, -, -, held, -⟩ := (onFile service member).1 mine
  rw [file] at held
  cases held

theorem names_durable_written :
    ∃ world : World, Reaches (World.step myMachine) (Call.Backed myMachine)
        (World.opened none "device" "MacBook" 0) world ∧
      world.catalog.snapshot.services.map PreviewService.hostname =
        ["macbook.my-app.localhost"] ∧ world.NamesOnFile := by
  have ran : ((World.opened none "device" "MacBook" 0).step myMachine
      (.replaceLocal [viteServer] true .asInserted)).map (fun world =>
        world.catalog.snapshot.services.map PreviewService.hostname) =
      some ["macbook.my-app.localhost"] := by decide
  obtain ⟨world, stepped, shown⟩ := Option.map_eq_some_iff.mp ran
  have writes : Call.Backed myMachine (World.opened none "device" "MacBook" 0)
      (.replaceLocal [viteServer] true .asInserted) := .inl (by decide)
  have runs : Reaches (World.step myMachine) (Call.Backed myMachine)
      (World.opened none "device" "MacBook" 0) world := .single ⟨_, writes, stepped⟩
  exact ⟨world, runs, shown, (names_durable myMachine_injective runs).1⟩

end Zeron.Preview
