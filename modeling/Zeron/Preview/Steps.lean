import Zeron.Preview.Catalog

namespace Zeron.Preview

/-! # What a call does

A scan only adds names.  The listener it places ends up on a service of its own
project, either one that was there or one that was just named.
-/

theorem mem_labels {names : Names} {label : String} :
    label ∈ names.labels ↔
      ∃ cwd project, names.projects.lookup cwd = some project ∧ label ∈ project.labels := by
  simp only [Names.labels, List.mem_flatMap]
  constructor
  · rintro ⟨⟨cwd, project⟩, member, here⟩
    exact ⟨cwd, project, AList.mem_lookup_iff.mpr member, here⟩
  · rintro ⟨cwd, project, found, here⟩
    exact ⟨⟨cwd, project⟩, AList.mem_lookup_iff.mp found, here⟩

/-- One registry holds everything another holds, perhaps more. -/
structure Names.Extends (old new : Names) : Prop where
  device : new.deviceLabel = old.deviceLabel
  peers : ∀ {device label}, old.peerLabels.lookup device = some label →
    new.peerLabels.lookup device = some label
  projects : ∀ {cwd project}, old.projects.lookup cwd = some project →
    ∃ more, new.projects.lookup cwd = some { project with services := project.services ++ more }

theorem Names.Extends.refl (names : Names) : names.Extends names :=
  ⟨rfl, id, fun found => ⟨[], by simpa using found⟩⟩

theorem Names.Extends.trans {first second third : Names} (early : first.Extends second)
    (late : second.Extends third) : first.Extends third := by
  refine ⟨late.device.trans early.device, late.peers ∘ early.peers, ?_⟩
  intro cwd project found
  obtain ⟨more, mid⟩ := early.projects found
  obtain ⟨further, last⟩ := late.projects mid
  exact ⟨more ++ further, by simpa using last⟩

variable {machine : Machine} {catalog : Catalog} {pass after : Pass} {seen : Observation}

inductive Pass.Named (machine : Machine) (cwd : String) (pass : Pass) : Pass → Prop where
  | known (known : cwd ∈ pass.names.projects) : Named machine cwd pass pass
  | added {base label : String} (absent : cwd ∉ pass.names.projects)
      (allocated : allocate (slug base) pass.used = some label) :
      Named machine cwd pass
        { pass with
          names := { pass.names with
            projects := pass.names.projects.insert cwd ⟨machine.newV4 pass.drawn, label, []⟩ }
          used := label :: pass.used
          changed := true
          drawn := pass.drawn + 1 }

theorem Pass.nameProject_spec {root : OsStr}
    (named : pass.nameProject machine root = some after) :
    pass.Named machine (toStringLossy root) after := by
  unfold Pass.nameProject at named
  split at named
  · rename_i known
    cases named
    exact .known known
  · rename_i absent
    obtain ⟨label, allocated, result⟩ := Option.bind_eq_some_iff.mp named
    cases result
    exact .added absent allocated

/-- How a listener came by its service: an entry it matches, or a new one. -/
inductive Pass.Matched (machine : Machine) (catalog : Catalog) (pass : Pass) (seen : Observation)
    (project : ProjectName) : String → Pass → Prop where
  | reused {id : String}
      (reuse : project.reuse (fingerprint machine seen.listener)
        (previousId catalog.routes seen.listener) pass.next = some id) :
      Matched machine catalog pass seen project id pass
  | named {label : String}
      (unmatched : project.reuse (fingerprint machine seen.listener)
        (previousId catalog.routes seen.listener) pass.next = none)
      (chosen : project.services = [] ∧ label = project.label ∨
        allocate (project.label ++ "-" ++ slug (roleOf seen.listener)) pass.used = some label) :
      Matched machine catalog pass seen project (machine.newV4 pass.drawn)
        { pass with
          names := { pass.names with
            projects := pass.names.projects.insert (toStringLossy seen.root)
              { project with services := project.services ++
                [⟨machine.newV4 pass.drawn, fingerprint machine seen.listener, label⟩] } }
          used := label :: pass.used
          changed := true
          drawn := pass.drawn + 1 }

/-- Everything placing one listener can do. -/
inductive Pass.Placed (machine : Machine) (catalog : Catalog) (pass : Pass) (seen : Observation) :
    Pass → Prop where
  | again (twice : seen.spot ∈ pass.seen) :
      Placed machine catalog pass seen pass
  | routed {named matched : Pass} {project final : ProjectName} {service : ServiceName}
      (once : seen.spot ∉ pass.seen)
      (naming : ({ pass with seen := seen.spot :: pass.seen }).Named
        machine (toStringLossy seen.root) named)
      (held : named.names.projects.lookup (toStringLossy seen.root) = some project)
      (matching : named.Matched machine catalog seen project service.id matched)
      (final_held : matched.names.projects.lookup (toStringLossy seen.root) = some final)
      (found : final.services.find? (fun other => other.id = service.id) = some service) :
      Placed machine catalog pass seen
        { matched with
          next := matched.next.insert service.id
            (routeFor catalog matched.names.deviceLabel final service seen) }

theorem Pass.record_spec {id : String} (recorded : pass.record catalog id seen = some after) :
    ∃ project service, pass.names.projects.lookup (toStringLossy seen.root) = some project ∧
      project.services.find? (fun other => other.id = service.id) = some service ∧
      service.id = id ∧
      after = { pass with
        next := pass.next.insert service.id
          (routeFor catalog pass.names.deviceLabel project service seen) } := by
  obtain ⟨project, held, rest⟩ := Option.bind_eq_some_iff.mp recorded
  obtain ⟨service, found, result⟩ := Option.bind_eq_some_iff.mp rest
  have same : service.id = id := by simpa using List.find?_some found
  cases result
  exact ⟨project, service, held, same ▸ found, same, by rw [same]⟩

theorem Pass.nameService_spec {cwd print role id : String} {project : ProjectName}
    (named : pass.nameService machine cwd project print role = some (id, after)) :
    ∃ label, (project.services = [] ∧ label = project.label ∨
        allocate (project.label ++ "-" ++ slug role) pass.used = some label) ∧
      id = machine.newV4 pass.drawn ∧
      after = { pass with
        names := { pass.names with
          projects := pass.names.projects.insert cwd
            { project with services := project.services ++
              [⟨machine.newV4 pass.drawn, print, label⟩] } }
        used := label :: pass.used
        changed := true
        drawn := pass.drawn + 1 } := by
  obtain ⟨label, chosen, result⟩ := Option.bind_eq_some_iff.mp named
  cases result
  refine ⟨label, ?_, rfl, rfl⟩
  unfold ProjectName.serviceLabel at chosen
  split at chosen
  · rename_i empty
    cases chosen
    exact .inl ⟨List.isEmpty_iff.mp empty, rfl⟩
  · exact .inr chosen

theorem Pass.place_spec (placed : pass.place machine catalog seen = some after) :
    pass.Placed machine catalog seen after := by
  unfold Pass.place at placed
  simp only at placed
  split at placed
  · rename_i twice
    cases placed
    exact .again twice
  · rename_i once
    obtain ⟨named, naming, rest⟩ := Option.bind_eq_some_iff.mp placed
    obtain ⟨project, held, rest⟩ := Option.bind_eq_some_iff.mp rest
    split at rest
    · rename_i id reuse
      obtain ⟨final, service, final_held, found, same, result⟩ := Pass.record_spec rest
      rw [result]
      exact .routed once (nameProject_spec naming) held (.reused (same ▸ reuse)) final_held found
    · rename_i unmatched
      obtain ⟨⟨id, matched⟩, naming', rest⟩ := Option.bind_eq_some_iff.mp rest
      obtain ⟨label, chosen, drawn, grown⟩ := Pass.nameService_spec naming'
      obtain ⟨final, service, final_held, found, same, result⟩ := Pass.record_spec rest
      rw [result]
      refine .routed once (nameProject_spec naming) held ?_ final_held found
      rw [same, drawn, grown]
      exact .named unmatched chosen

/-! ## Names only grow -/

theorem Names.extends_insert {names : Names} {cwd : String} {project : ProjectName}
    (absent : cwd ∉ names.projects) :
    names.Extends { names with projects := names.projects.insert cwd project } := by
  refine ⟨rfl, id, ?_⟩
  intro other held found
  have apart : other ≠ cwd := by
    rintro rfl
    exact absent (AList.lookup_isSome.mp (by simp [found]))
  exact ⟨[], by simpa [AList.lookup_insert_ne apart] using found⟩

theorem Names.extends_services {names : Names} {cwd : String} {project : ProjectName}
    (held : names.projects.lookup cwd = some project) (more : List ServiceName) :
    names.Extends { names with
      projects := names.projects.insert cwd
        { project with services := project.services ++ more } } := by
  refine ⟨rfl, id, ?_⟩
  intro other found there
  by_cases same : other = cwd
  · subst same
    rw [held] at there
    cases there
    exact ⟨more, AList.lookup_insert _⟩
  · exact ⟨[], by simpa [AList.lookup_insert_ne same] using there⟩

theorem Pass.Named.extends {cwd : String} (named : pass.Named machine cwd after) :
    pass.names.Extends after.names := by
  cases named with
  | known => exact .refl _
  | added absent => exact Names.extends_insert absent

theorem Pass.Matched.extends {project : ProjectName} {id : String}
    (matched : pass.Matched machine catalog seen project id after)
    (held : pass.names.projects.lookup (toStringLossy seen.root) = some project) :
    pass.names.Extends after.names := by
  cases matched with
  | reused => exact .refl _
  | named => exact Names.extends_services held _

theorem Pass.Matched.changed {project : ProjectName} {id : String}
    (matched : pass.Matched machine catalog seen project id after) :
    after.changed = true ∨ after = pass := by
  cases matched with
  | reused => exact .inr rfl
  | named => exact .inl rfl

theorem Pass.Placed.extends (placed : pass.Placed machine catalog seen after) :
    pass.names.Extends after.names := by
  cases placed with
  | again => exact .refl _
  | routed once naming held matching => exact naming.extends.trans (matching.extends held)

/-- What every placed listener keeps, the whole scan keeps. -/
theorem Pass.placeAll_keeps {inv : Pass → Prop} {scan : List Observation}
    (keeps : ∀ {pass after seen}, seen ∈ scan → inv pass →
      pass.Placed machine catalog seen after → inv after)
    (start : inv pass) (placed : pass.placeAll machine catalog scan = some after) : inv after := by
  induction scan generalizing pass with
  | nil =>
      cases placed
      exact start
  | cons first rest ih =>
      obtain ⟨mid, here, later⟩ := Option.bind_eq_some_iff.mp placed
      have next := keeps (List.mem_cons_self ..) start (place_spec here)
      exact ih (fun member => keeps (List.mem_cons_of_mem _ member)) next later

/-- The same, for what is said of the listeners done and those to come. -/
theorem Pass.placeAll_walk {inv : List Observation → List Observation → Pass → Prop}
    {done todo : List Observation}
    (keeps : ∀ {before seen rest pass after}, done ++ todo = before ++ seen :: rest →
      inv before (seen :: rest) pass → pass.Placed machine catalog seen after →
        inv (before ++ [seen]) rest after)
    (start : inv done todo pass) (placed : pass.placeAll machine catalog todo = some after) :
    inv (done ++ todo) [] after := by
  induction todo generalizing done pass with
  | nil =>
      cases placed
      simpa using start
  | cons first rest ih =>
      obtain ⟨mid, here, later⟩ := Option.bind_eq_some_iff.mp placed
      have next := keeps rfl start (place_spec here)
      have split : (done ++ [first]) ++ rest = done ++ first :: rest := by simp
      rw [← split]
      refine ih (fun same => keeps (split.symm.trans same)) next later

theorem Pass.placeAll_extends {scan : List Observation}
    (placed : pass.placeAll machine catalog scan = some after) :
    pass.names.Extends after.names :=
  @placeAll_keeps _ _ _ _ (fun mid => pass.names.Extends mid.names) _
    (fun _ held placed => held.trans placed.extends) (.refl _) placed

/-! ## The two calls that name things -/

variable {world next : World}

inductive World.Replaced (machine : Machine) (world : World) (observations : List Observation)
    (persists : Bool) (order : HashOrder) : World → Prop where
  | unwritten {pass : Pass}
      (scanned : (Pass.start world.catalog.names world.drawn).placeAll machine world.catalog
        (scanOf observations) = some pass)
      (changed : pass.changed = true) (failed : persists = false) :
      Replaced machine world observations persists order
        { world with
          catalog := { world.catalog with names := pass.names }
          drawn := pass.drawn
          reply := .unwritten }
  | published {pass : Pass}
      (scanned : (Pass.start world.catalog.names world.drawn).placeAll machine world.catalog
        (scanOf observations) = some pass)
      (written : pass.changed = true → persists = true) :
      Replaced machine world observations persists order
        { world with
          file := if pass.changed then some pass.names else world.file
          catalog := ({ world.catalog with
            names := pass.names, routes := order.arrange pass.next } : Catalog).publish
          drawn := pass.drawn
          reply := .ok
          observed := observations }

theorem World.replaceLocal_spec {observations : List Observation} {persists : Bool}
    {order : HashOrder}
    (called : world.replaceLocal machine observations persists order = some next) :
    world.Replaced machine observations persists order next := by
  obtain ⟨pass, scanned, result⟩ := Option.bind_eq_some_iff.mp called
  split at result
  · rename_i failed
    simp only [Bool.and_eq_true, Bool.not_eq_true'] at failed
    cases result
    exact .unwritten scanned failed.1 failed.2
  · rename_i written
    simp only [Bool.and_eq_true, Bool.not_eq_true', not_and, Bool.not_eq_false] at written
    cases result
    exact .published scanned written

/-- A scan that adds nothing succeeds whether or not the file could be written. -/
theorem World.replaceLocal_unchanged {observations : List Observation} {persists : Bool}
    {order : HashOrder} {pass : Pass}
    (scanned : (Pass.start world.catalog.names world.drawn).placeAll machine world.catalog
      (scanOf observations) = some pass) (unchanged : pass.changed = false) :
    world.replaceLocal machine observations persists order = some { world with
      catalog := ({ world.catalog with
        names := pass.names, routes := order.arrange pass.next } : Catalog).publish
      drawn := pass.drawn
      reply := .ok
      observed := observations } := by
  simp [replaceLocal, scanned, unchanged]

inductive World.Advertised (world : World) (device : String) (services : List PreviewService)
    (persists : Bool) : World → Prop where
  | refused (reason : String) :
      Advertised world device services persists { world with reply := .refused reason }
  | nothing (apart : device ≠ world.catalog.deviceId) (empty : services = []) :
      Advertised world device services persists (world.showRemote device [] [])
  | known {label : String} (apart : device ≠ world.catalog.deviceId)
      (nonempty : services ≠ []) (short : services.length ≤ 256)
      (sound : advertisementOk device services = true)
      (held : world.catalog.names.peerLabels.lookup device = some label) :
      Advertised world device services persists
        (world.showRemote device services (services.map (underLabel label)))
  | written {first : PreviewService} {label : String} (apart : device ≠ world.catalog.deviceId)
      (short : services.length ≤ 256) (sound : advertisementOk device services = true) (member : first ∈ services)
      (absent : world.catalog.names.peerLabels.lookup device = none)
      (allocated : allocate (deviceLabelOf first.hostname)
        (world.catalog.names.peerLabels.entries.map Sigma.snd ++
          [world.catalog.names.deviceLabel]) = some label)
      (ok : persists = true) :
      Advertised world device services persists
        (({ world with
            file := some { world.catalog.names with
              peerLabels := world.catalog.names.peerLabels.insert device label }
            catalog := { world.catalog with names := { world.catalog.names with
              peerLabels := world.catalog.names.peerLabels.insert device label } } } :
          World).showRemote device services (services.map (underLabel label)))
  | unwritten {first : PreviewService} {label : String}
      (sound : advertisementOk device services = true) (member : first ∈ services)
      (absent : world.catalog.names.peerLabels.lookup device = none)
      (allocated : allocate (deviceLabelOf first.hostname)
        (world.catalog.names.peerLabels.entries.map Sigma.snd ++
          [world.catalog.names.deviceLabel]) = some label)
      (failed : persists = false) :
      Advertised world device services persists
        { world with
          catalog := { world.catalog with names := { world.catalog.names with
            peerLabels := world.catalog.names.peerLabels.insert device label } }
          reply := .unwritten }

theorem World.setRemote_spec {device : String} {services : List PreviewService} {persists : Bool}
    (called : world.setRemote device services persists = some next) :
    world.Advertised device services persists next := by
  unfold World.setRemote at called
  split at called
  · cases called
    exact .refused _
  · rename_i apart
    split at called
    · cases called
      exact .refused _
    · rename_i short
      split at called
      · cases called
        exact .refused _
      · rename_i sound
        simp only [Bool.not_eq_true', Bool.not_eq_false] at sound
        cases services with
        | nil =>
            cases called
            exact .nothing apart rfl
        | cons first rest =>
            simp only at called
            split at called
            · rename_i held
              cases called
              exact .known apart (List.cons_ne_nil _ _) (by omega) sound held
            · rename_i absent
              obtain ⟨label, allocated, result⟩ := Option.bind_eq_some_iff.mp called
              split at result
              · rename_i ok
                cases result
                exact .written apart (by omega) sound (List.mem_cons_self ..) absent allocated ok
              · rename_i failed
                cases result
                exact .unwritten sound (List.mem_cons_self ..) absent allocated
                  (by simpa using failed)

theorem World.setRemote_nothing {device : String} (persists : Bool)
    (apart : device ≠ world.catalog.deviceId) :
    world.setRemote device [] persists = some (world.showRemote device [] []) := by
  simp [setRemote, apart, advertisementOk]

theorem World.setRemote_known {device label : String} {services : List PreviewService}
    {persists : Bool} (apart : device ≠ world.catalog.deviceId) (nonempty : services ≠ [])
    (short : services.length ≤ 256) (ok : advertisementOk device services = true)
    (held : world.catalog.names.peerLabels.lookup device = some label) :
    world.setRemote device services persists =
      some (world.showRemote device services (services.map (underLabel label))) := by
  cases services with
  | nil => exact absurd rfl nonempty
  | cons first rest =>
      rw [setRemote, if_neg apart, if_neg (by omega), if_neg (by simp [ok])]
      simp only [held]

end Zeron.Preview
