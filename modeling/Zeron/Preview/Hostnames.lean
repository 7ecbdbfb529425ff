import Zeron.Preview.Steps
import Zeron.Data.Runs

namespace Zeron.Preview

open Zeron.Data

/-! # Hostnames are valid and name one service

Three spaces of names meet in a hostname: the device's label and its peers',
the projects' and the services'.  The first never overlap each other, and no
label of a project is used in another.
-/

theorem hostnameOf_toList (device service : String) :
    (hostnameOf device service).toList =
      device.toList ++ '.' :: (service.toList ++ ".localhost".toList) := by
  simp [hostnameOf]

theorem dot_not_mem {label : List Char} (valid : validLabel label = true) : '.' ∉ label := by
  intro dot
  have char := (validLabel_iff.mp valid).1.chars _ dot
  exact absurd char (by decide)

theorem splitOn_hostnameOf {device service : String} (device_valid : validLabel device.toList = true)
    (service_valid : validLabel service.toList = true) :
    (hostnameOf device service).toList.splitOn '.' =
      [device.toList, service.toList, "localhost".toList] := by
  have joined : (hostnameOf device service).toList =
      ['.'].intercalate [device.toList, service.toList, "localhost".toList] := by
    simp [hostnameOf, List.intercalate]
  rw [joined]
  apply List.splitOn_intercalate
  · intro label member
    simp only [List.mem_cons, List.not_mem_nil, or_false] at member
    rcases member with rfl | rfl | rfl
    · exact dot_not_mem device_valid
    · exact dot_not_mem service_valid
    · decide
  · simp

theorem validHostname_iff {host : String} :
    validHostname host = true ↔ ∃ device service : String, host = hostnameOf device service ∧
      validLabel device.toList = true ∧ validLabel service.toList = true := by
  constructor
  · intro valid
    have joined := @List.intercalate_splitOn _ host.toList _ _ '.'
    unfold validHostname at valid
    rcases parts : host.toList.splitOn '.' with _ | ⟨device, _ | ⟨service, _ | ⟨suffix, _ | ⟨_, _⟩⟩⟩⟩
      <;> simp only [parts] at valid
    all_goals first | exact absurd valid Bool.false_ne_true | skip
    simp only [Bool.and_eq_true, beq_iff_eq] at valid
    obtain ⟨⟨suffix_same, device_valid⟩, service_valid⟩ := valid
    refine ⟨String.ofList device, String.ofList service, ?_, by simpa using device_valid,
      by simpa using service_valid⟩
    rw [parts, suffix_same] at joined
    rw [← String.toList_inj, ← joined]
    simp [hostnameOf, List.intercalate]
  · rintro ⟨device, service, rfl, device_valid, service_valid⟩
    unfold validHostname
    rw [splitOn_hostnameOf device_valid service_valid]
    simp [device_valid, service_valid]

theorem not_dot {label : List Char} (valid : validLabel label = true) :
    ∀ c ∈ label, (c != '.') = true := by
  intro c member
  simp only [bne_iff_ne]
  rintro rfl
  exact dot_not_mem valid member

theorem deviceLabelOf_hostnameOf {device service : String}
    (valid : validLabel device.toList = true) :
    deviceLabelOf (hostnameOf device service) = device := by
  rw [deviceLabelOf, hostnameOf_toList, List.takeWhile_append_of_pos (not_dot valid)]
  simp

theorem restOf_hostnameOf {device service : String} (valid : validLabel device.toList = true) :
    restOf (hostnameOf device service) = service ++ ".localhost" := by
  rw [restOf, hostnameOf_toList, List.dropWhile_append_of_pos (not_dot valid)]
  rw [← String.toList_inj]
  simp

theorem hostnameOf_inj {device service service' : String}
    (same : hostnameOf device service = hostnameOf device service') : service = service' := by
  have texts := congrArg String.toList same
  rw [hostnameOf_toList, hostnameOf_toList, List.append_cancel_left_eq, List.cons_inj_right,
    List.append_cancel_right_eq] at texts
  exact String.toList_inj.mp texts

/-! ## Sound names -/

/-- Labels are well formed, no peer shares one, no project uses another's. -/
structure Names.Sound (names : Names) : Prop where
  device : validLabel names.deviceLabel.toList = true
  peers : ∀ {device label}, names.peerLabels.lookup device = some label →
    validLabel label.toList = true ∧ label ≠ names.deviceLabel
  peersApart : ∀ {device device' label}, names.peerLabels.lookup device = some label →
    names.peerLabels.lookup device' = some label → device = device'
  labels : ∀ {cwd project}, names.projects.lookup cwd = some project →
    ∀ label ∈ project.labels, validLabel label.toList = true
  services : ∀ {cwd project}, names.projects.lookup cwd = some project →
    (project.services.map ServiceName.label).Nodup
  apart : ∀ {cwd cwd' project project'}, names.projects.lookup cwd = some project →
    names.projects.lookup cwd' = some project' → cwd ≠ cwd' →
      ∀ label ∈ project.labels, label ∉ project'.labels

theorem Names.sound_fresh (deviceName : String) : (Names.fresh (slug deviceName)).Sound :=
  ⟨slug_valid deviceName, by simp [fresh], by simp [fresh], by simp [fresh], by simp [fresh],
    by simp [fresh]⟩

/-- Adding or replacing one project, all of whose new labels were free. -/
theorem Names.Sound.insert {names : Names} (sound : names.Sound) {cwd : String}
    {project : ProjectName} (labels : ∀ label ∈ project.labels, validLabel label.toList = true)
    (services : (project.services.map ServiceName.label).Nodup)
    (free : ∀ label ∈ project.labels, ∀ {other held}, other ≠ cwd →
      names.projects.lookup other = some held → label ∉ held.labels) :
    ({ names with projects := names.projects.insert cwd project } : Names).Sound := by
  refine ⟨sound.device, sound.peers, sound.peersApart, ?_, ?_, ?_⟩
  · intro other held found
    by_cases same : other = cwd
    · subst same
      rw [AList.lookup_insert] at found
      cases found
      exact labels
    · rw [AList.lookup_insert_ne same] at found
      exact sound.labels found
  · intro other held found
    by_cases same : other = cwd
    · subst same
      rw [AList.lookup_insert] at found
      cases found
      exact services
    · rw [AList.lookup_insert_ne same] at found
      exact sound.services found
  · intro first second held held' found found' different label member
    by_cases here : first = cwd
    · subst here
      rw [AList.lookup_insert] at found
      rw [AList.lookup_insert_ne different.symm] at found'
      cases found
      exact free label member different.symm found'
    · rw [AList.lookup_insert_ne here] at found
      by_cases there : second = cwd
      · subst there
        rw [AList.lookup_insert] at found'
        cases found'
        exact fun shared => free label shared here found member
      · rw [AList.lookup_insert_ne there] at found'
        exact sound.apart found found' different label member

theorem slug_stem (value : String) : Stem (slug value).toList :=
  (validLabel_iff.mp (slug_valid value)).1

theorem Names.Sound.addPeer {names : Names} (sound : names.Sound) {device label : String}
    (valid : validLabel label.toList = true) (unlike : label ≠ names.deviceLabel)
    (free : ∀ {other held}, names.peerLabels.lookup other = some held → label ≠ held) :
    ({ names with peerLabels := names.peerLabels.insert device label } : Names).Sound := by
  refine { sound with peers := ?_, peersApart := ?_ }
  · intro other held found
    by_cases same : other = device
    · subst same
      rw [AList.lookup_insert] at found
      cases found
      exact ⟨valid, unlike⟩
    · rw [AList.lookup_insert_ne same] at found
      exact sound.peers found
  · intro first second held found found'
    by_cases here : first = device <;> by_cases there : second = device
    · rw [here, there]
    · subst here
      rw [AList.lookup_insert] at found
      rw [AList.lookup_insert_ne there] at found'
      cases found
      exact absurd rfl (free found')
    · subst there
      rw [AList.lookup_insert_ne here] at found
      rw [AList.lookup_insert] at found'
      cases found'
      exact absurd rfl (free found)
    · rw [AList.lookup_insert_ne here] at found
      rw [AList.lookup_insert_ne there] at found'
      exact sound.peersApart found found'

/-! ## A scan keeps names sound -/

/-- A route stands on a service of the names, under the hostname that gives it. -/
def Routed (names : Names) (catalog : Catalog) (id : String) (route : LocalRoute) : Prop :=
  ∃ project service, names.projects.lookup route.service.projectCwd = some project ∧
    service ∈ project.services ∧ service.id = id ∧ route.service.id = id ∧
    route.service.projectId = project.id ∧ route.service.deviceId = catalog.deviceId ∧
    route.service.hostname = hostnameOf names.deviceLabel service.label

theorem Routed.extend {names wider : Names} {catalog : Catalog} {id : String} {route : LocalRoute}
    (routed : Routed names catalog id route) (extends' : names.Extends wider) :
    Routed wider catalog id route := by
  obtain ⟨project, service, held, member, same, own, projectId, device, hostname⟩ := routed
  obtain ⟨more, grown⟩ := extends'.projects held
  exact ⟨_, service, grown, List.mem_append_left _ member, same, own, projectId, device,
    by rw [extends'.device, hostname]⟩

structure Pass.Sound (catalog : Catalog) (pass : Pass) : Prop where
  names : pass.names.Sound
  used : ∀ label ∈ pass.names.labels, label ∈ pass.used
  routes : ∀ {id route}, pass.next.lookup id = some route → Routed pass.names catalog id route

variable {machine : Machine} {catalog : Catalog} {pass after : Pass} {seen : Observation}

theorem Pass.Sound.named {cwd : String} (sound : pass.Sound catalog)
    (named : pass.Named machine cwd after) : after.Sound catalog := by
  have wider := named.extends
  cases named with
  | known => exact sound
  | added absent allocated =>
      rename_i base label
      obtain ⟨valid, free⟩ := allocate_spec (slug_stem base) allocated
      have apart : ∀ {other held}, pass.names.projects.lookup other = some held →
          label ∉ held.labels := fun found shared =>
        free (sound.used label (mem_labels.mpr ⟨_, _, found, shared⟩))
      refine ⟨?_, ?_, fun found => (sound.routes found).extend wider⟩
      · apply sound.names.insert
        · simpa [ProjectName.labels] using valid
        · simp
        · intro other member cwd' held _ found
          rw [show other = label by simpa [ProjectName.labels] using member]
          exact apart found
      · intro other member
        obtain ⟨cwd', project, found, here⟩ := mem_labels.mp member
        by_cases same : cwd' = cwd
        · subst same
          rw [AList.lookup_insert] at found
          cases found
          exact List.mem_cons.mpr (.inl (by simpa [ProjectName.labels] using here))
        · rw [AList.lookup_insert_ne same] at found
          exact List.mem_cons_of_mem _ (sound.used other (mem_labels.mpr ⟨_, _, found, here⟩))

theorem service_base_stem {label : String} (valid : validLabel label.toList = true) (role : String) :
    Stem (label ++ "-" ++ slug role).toList := by
  have chars := (slug_stem role).chars
  have stem := (validLabel_iff.mp valid).1
  rw [String.toList_append, String.toList_append, List.append_assoc]
  apply stem.append
  intro c member
  rcases List.mem_append.mp member with dash | rest
  · rw [show c = '-' by simpa using dash]
    rfl
  · exact chars c rest

theorem Pass.Sound.matched {project : ProjectName} {id : String} (sound : pass.Sound catalog)
    (held : pass.names.projects.lookup (toStringLossy seen.root) = some project)
    (matched : pass.Matched machine catalog seen project id after) : after.Sound catalog := by
  have wider := matched.extends held
  cases matched with
  | reused => exact sound
  | named unmatched chosen =>
      rename_i label
      have mine : ∀ other ∈ project.labels, other ∈ pass.used := fun other member =>
        sound.used other (mem_labels.mpr ⟨_, _, held, member⟩)
      have project_valid := sound.names.labels held project.label (List.mem_cons_self ..)
      have labelled : validLabel label.toList = true ∧
          (∀ {other theirs}, other ≠ toStringLossy seen.root →
            pass.names.projects.lookup other = some theirs → label ∉ theirs.labels) ∧
          label ∉ project.services.map ServiceName.label := by
        rcases chosen with ⟨empty, rfl⟩ | allocated
        · refine ⟨project_valid, fun different found => ?_, by simp [empty]⟩
          exact sound.names.apart held found different.symm _ (List.mem_cons_self ..)
        · obtain ⟨valid, free⟩ := allocate_spec (service_base_stem project_valid _) allocated
          refine ⟨valid, fun _ found shared => ?_, fun shared => ?_⟩
          · exact free (sound.used label (mem_labels.mpr ⟨_, _, found, shared⟩))
          · exact free (mine label (List.mem_cons_of_mem _ shared))
      obtain ⟨valid, free, unlike⟩ := labelled
      have grown : ∀ {other}, other ∈ project.label :: (project.services.map ServiceName.label ++
          [label]) → other ∈ project.labels ∨ other = label := by
        intro other member
        simp only [List.mem_cons, List.mem_append, List.not_mem_nil, or_false] at member
        simp only [ProjectName.labels, List.mem_cons]
        tauto
      refine ⟨?_, ?_, fun found => (sound.routes found).extend wider⟩
      · apply sound.names.insert
        · intro other member
          rcases grown (by simpa [ProjectName.labels] using member) with old | rfl
          · exact sound.names.labels held other old
          · exact valid
        · have nodup := sound.names.services held
          simp only [List.map_append, List.map_cons, List.map_nil]
          exact nodup.append (List.nodup_singleton _) (by simpa using unlike)
        · intro other member cwd theirs different found
          rcases grown (by simpa [ProjectName.labels] using member) with old | rfl
          · exact sound.names.apart held found different.symm other old
          · exact free different found
      · intro other member
        obtain ⟨cwd, theirs, found, here⟩ := mem_labels.mp member
        by_cases same : cwd = toStringLossy seen.root
        · subst same
          rw [AList.lookup_insert] at found
          cases found
          rcases grown (by simpa [ProjectName.labels] using here) with old | rfl
          · exact List.mem_cons_of_mem _ (mine other old)
          · exact List.mem_cons_self ..
        · rw [AList.lookup_insert_ne same] at found
          exact List.mem_cons_of_mem _ (sound.used other (mem_labels.mpr ⟨_, _, found, here⟩))

theorem Pass.Sound.placed (sound : pass.Sound catalog)
    (placed : pass.Placed machine catalog seen after) : after.Sound catalog := by
  cases placed with
  | again => exact sound
  | routed once naming held matching final_held found =>
      rename_i named matched project final service
      have start : Pass.Sound catalog
          { pass with seen := seen.spot :: pass.seen } :=
        ⟨sound.names, sound.used, sound.routes⟩
      have grown := (start.named naming).matched held matching
      refine ⟨grown.names, grown.used, ?_⟩
      intro id route routed
      by_cases same : id = service.id
      · subst same
        rw [AList.lookup_insert] at routed
        cases routed
        exact ⟨final, service, final_held, List.mem_of_find?_eq_some found, rfl, rfl, rfl, rfl, rfl⟩
      · rw [AList.lookup_insert_ne same] at routed
        exact grown.routes routed

theorem Pass.Sound.start {names : Names} (sound : names.Sound) (drawn : Nat) :
    (Pass.start names drawn).Sound catalog :=
  ⟨sound, fun _ member => member, by simp [Pass.start]⟩

theorem Pass.Sound.scan {scan : List Observation} (sound : pass.Sound catalog)
    (placed : pass.placeAll machine catalog scan = some after) : after.Sound catalog :=
  placeAll_keeps (fun _ held placed => held.placed placed) sound placed

/-! ## Every call keeps the catalog sound -/

structure World.Sound (world : World) : Prop where
  names : world.catalog.names.Sound
  file : ∀ {names}, world.file = some names → names.Sound
  routes : ∀ {id route}, world.catalog.routes.lookup id = some route →
    Routed world.catalog.names world.catalog id route
  remote : ∀ {device services}, world.catalog.remote.lookup device = some services →
    device ≠ world.catalog.deviceId ∧ ∀ service ∈ services, service.deviceId = device ∧
      ∃ label rest, world.catalog.names.peerLabels.lookup device = some label ∧
        validLabel rest.toList = true ∧ service.hostname = hostnameOf label rest
  published : world.catalog.snapshot.services.Perm
    (world.catalog.routes.entries.map (fun entry => entry.2.service) ++
      world.catalog.remoteServices)

theorem publish_perm (catalog : Catalog) :
    catalog.publish.snapshot.services.Perm
      (catalog.routes.entries.map (fun entry => entry.2.service) ++ catalog.remoteServices) :=
  List.perm_insertionSort _ _

theorem openCatalog_names {file : Option Names} (sound : ∀ {names}, file = some names → names.Sound)
    (deviceId deviceName : String) :
    (openCatalog file deviceId deviceName).names = file.getD (Names.fresh (slug deviceName)) := by
  cases file with
  | none => rfl
  | some names =>
      have some : names.deviceLabel.isEmpty = false := by
        have stem := (validLabel_iff.mp (sound rfl).device).1
        cases empty : names.deviceLabel.isEmpty with
        | false => rfl
        | true =>
            rw [String.isEmpty_iff] at empty
            exact absurd (by simp [empty]) stem.nonempty
      simp [openCatalog, some]

theorem World.sound_opened {file : Option Names}
    (sound : ∀ {names}, file = some names → names.Sound) (deviceId deviceName : String)
    (drawn : Nat) : (World.opened file deviceId deviceName drawn).Sound := by
  have names : (openCatalog file deviceId deviceName).names.Sound := by
    rw [openCatalog_names sound]
    cases file with
    | none => exact Names.sound_fresh deviceName
    | some names => exact sound rfl
  exact ⟨names, sound, by simp [opened, openCatalog], by simp [opened, openCatalog],
    by simp [opened, openCatalog, PreviewSnapshot.default, Catalog.remoteServices]⟩

variable {world next : World}

/-- Names that grew beneath a catalog that shows the same things. -/
theorem World.Sound.grow (sound : world.Sound) {names : Names} (wider : names.Sound)
    (grown : world.catalog.names.Extends names) :
    ({ world with catalog := { world.catalog with names := names } } : World).Sound := by
  refine ⟨wider, sound.file, fun found => (sound.routes found).extend grown, ?_, sound.published⟩
  intro device services found
  obtain ⟨apart, each⟩ := sound.remote found
  refine ⟨apart, fun service member => ?_⟩
  obtain ⟨owner, label, rest, held, valid, hostname⟩ := each service member
  exact ⟨owner, label, rest, grown.peers held, valid, hostname⟩

theorem World.Sound.replaced {machine : Machine} {observations : List Observation} {persists : Bool}
    {order : HashOrder} (sound : world.Sound)
    (replaced : world.Replaced machine observations persists order next) : next.Sound := by
  cases replaced with
  | unwritten scanned =>
      have grown := ((Pass.Sound.start sound.names world.drawn).scan scanned).names
      have wider := sound.grow grown (Pass.placeAll_extends scanned)
      exact ⟨wider.names, wider.file, wider.routes, wider.remote, wider.published⟩
  | published scanned written =>
      rename_i pass
      have scan := (Pass.Sound.start sound.names world.drawn).scan scanned
      have wider := sound.grow scan.names (Pass.placeAll_extends scanned)
      refine ⟨scan.names, ?_, ?_, wider.remote, publish_perm _⟩
      · intro names held
        simp only at held
        split at held
        · cases held
          exact scan.names
        · exact sound.file held
      · intro id route found
        have same : pass.next.lookup id = some route :=
          (AList.perm_lookup (order.perm pass.next)).symm.trans found
        exact scan.routes same

theorem advertisementOk_spec {device : String} {services : List PreviewService}
    (sound : advertisementOk device services = true) {service : PreviewService}
    (member : service ∈ services) :
    service.deviceId = device ∧ validHostname service.hostname = true := by
  simp only [advertisementOk, Bool.and_eq_true, List.all_eq_true, decide_eq_true_eq] at sound
  obtain ⟨⟨⟨⟨⟨owner, valid⟩, _⟩, _⟩, _⟩, _⟩ := sound.1 service member
  exact ⟨owner, valid⟩

/-- An advertisement shown under the label its device has here. -/
theorem World.Sound.shown (sound : world.Sound) {device label : String}
    {services : List PreviewService} (apart : device ≠ world.catalog.deviceId)
    (ok : advertisementOk device services = true)
    (held : world.catalog.names.peerLabels.lookup device = some label) :
    (world.showRemote device services (services.map (underLabel label))).Sound := by
  refine ⟨sound.names, sound.file, sound.routes, ?_, publish_perm _⟩
  intro other shown found
  by_cases same : other = device
  · subst same
    have lookup := AList.lookup_insert (β := fun _ : String => List PreviewService)
      (a := other) (b := services.map (underLabel label)) world.catalog.remote
    rw [show shown = services.map (underLabel label) from Option.some_inj.mp (found.symm.trans lookup)]
    refine ⟨apart, fun service member => ?_⟩
    obtain ⟨raw, advertised, renamed⟩ := List.mem_map.mp member
    obtain ⟨owner, valid⟩ := advertisementOk_spec ok advertised
    obtain ⟨prefix', rest, hostname, prefix_valid, rest_valid⟩ := validHostname_iff.mp valid
    refine ⟨by rw [← renamed]; exact owner, label, rest, held, rest_valid, ?_⟩
    rw [← renamed, underLabel, hostname, restOf_hostnameOf prefix_valid]
    simp [hostnameOf, String.append_assoc]
  · exact sound.remote ((AList.lookup_insert_ne same).symm.trans found)

theorem World.Sound.advertised {device : String} {services : List PreviewService} {persists : Bool}
    (sound : world.Sound) (advertised : world.Advertised device services persists next) :
    next.Sound := by
  have added : ∀ {first : PreviewService} {label : String}, first ∈ services →
      advertisementOk device services = true →
      world.catalog.names.peerLabels.lookup device = none →
      allocate (deviceLabelOf first.hostname)
        (world.catalog.names.peerLabels.entries.map Sigma.snd ++
          [world.catalog.names.deviceLabel]) = some label →
      ({ world.catalog.names with
        peerLabels := world.catalog.names.peerLabels.insert device label } : Names).Sound ∧
      world.catalog.names.Extends { world.catalog.names with
        peerLabels := world.catalog.names.peerLabels.insert device label } := by
    intro first label member ok absent allocated
    obtain ⟨prefix', rest, hostname, prefix_valid, rest_valid⟩ :=
      validHostname_iff.mp (advertisementOk_spec ok member).2
    rw [hostname, deviceLabelOf_hostnameOf prefix_valid] at allocated
    obtain ⟨valid, free⟩ := allocate_spec (validLabel_iff.mp prefix_valid).1 allocated
    simp only [List.mem_append, List.mem_map, List.mem_singleton, not_or, not_exists,
      not_and] at free
    constructor
    · apply sound.names.addPeer valid free.2
      intro other held found same
      exact free.1 ⟨other, held⟩ (AList.mem_lookup_iff.mp found) same.symm
    · refine ⟨rfl, fun {other held} found => ?_, (Names.Extends.refl _).projects⟩
      have apart : other ≠ device := by
        rintro rfl
        rw [absent] at found
        cases found
      exact (AList.lookup_insert_ne apart).trans found
  cases advertised with
  | refused => exact ⟨sound.names, sound.file, sound.routes, sound.remote, sound.published⟩
  | nothing apart empty =>
      refine ⟨sound.names, sound.file, sound.routes, ?_, publish_perm _⟩
      intro other shown found
      by_cases same : other = device
      · subst same
        rw [show shown = [] from Option.some_inj.mp (found.symm.trans (AList.lookup_insert _))]
        exact ⟨apart, by simp⟩
      · exact sound.remote ((AList.lookup_insert_ne same).symm.trans found)
  | known apart nonempty short ok held => exact sound.shown apart ok held
  | written apart short ok member absent allocated =>
      obtain ⟨wider, grown⟩ := added member ok absent allocated
      have mid := sound.grow wider grown
      have saved : World.Sound { world with
          file := some _, catalog := { world.catalog with names := _ } } :=
        ⟨mid.names, fun held => by cases held; exact wider, mid.routes, mid.remote, mid.published⟩
      exact saved.shown apart ok (AList.lookup_insert _)
  | unwritten ok member absent allocated =>
      obtain ⟨wider, grown⟩ := added member ok absent allocated
      have mid := sound.grow wider grown
      exact ⟨mid.names, mid.file, mid.routes, mid.remote, mid.published⟩

theorem World.Sound.step {machine : Machine} (sound : world.Sound) {call : Call}
    (stepped : world.step machine call = some next) : next.Sound := by
  cases call with
  | replaceLocal observations persists order => exact sound.replaced (replaceLocal_spec stepped)
  | setRemote device services persists => exact sound.advertised (setRemote_spec stepped)
  | removeRemote device =>
      cases stepped
      refine ⟨sound.names, sound.file, sound.routes, ?_, publish_perm _⟩
      intro other services found
      by_cases same : other = device
      · subst same
        simp [removeRemote, Catalog.publish] at found
      · exact sound.remote ((AList.lookup_erase_ne same).symm.trans found)
  | clearRemote =>
      cases stepped
      exact ⟨sound.names, sound.file, sound.routes, by simp [clearRemote, Catalog.publish],
        publish_perm _⟩
  | setProxyStatus port error =>
      cases stepped
      exact ⟨sound.names, sound.file, sound.routes, sound.remote, publish_perm _⟩
  | restart deviceId deviceName =>
      cases stepped
      exact sound_opened sound.file deviceId deviceName world.drawn

/-! ## What soundness says of the hostnames -/

theorem Names.Sound.owner {names : Names} (sound : names.Sound) {cwd cwd' : String}
    {project project' : ProjectName} {service service' : ServiceName}
    (held : names.projects.lookup cwd = some project) (member : service ∈ project.services)
    (held' : names.projects.lookup cwd' = some project') (member' : service' ∈ project'.services)
    (same : service.label = service'.label) : service = service' := by
  have inside : ∀ {own : ProjectName} {entry : ServiceName}, entry ∈ own.services →
      entry.label ∈ own.labels := fun there => List.mem_cons_of_mem _ (List.mem_map_of_mem there)
  have here : cwd = cwd' := by
    by_contra different
    exact sound.apart held held' different _ (inside member) (same ▸ inside member')
  subst here
  rw [held] at held'
  cases held'
  exact List.inj_on_of_nodup_map (sound.services held) member member' same

theorem World.Sound.local_apart (sound : world.Sound) {id id' : String} {route route' : LocalRoute}
    (found : world.catalog.routes.lookup id = some route)
    (found' : world.catalog.routes.lookup id' = some route')
    (same : route.service.hostname = route'.service.hostname) : id = id' := by
  obtain ⟨project, service, held, member, own, -, -, -, hostname⟩ := sound.routes found
  obtain ⟨project', service', held', member', own', -, -, -, hostname'⟩ := sound.routes found'
  rw [hostname, hostname'] at same
  have one := sound.names.owner held member held' member' (hostnameOf_inj same)
  rw [← own, ← own', one]

/-- The services of the routes bear different hostnames. -/
theorem World.Sound.locals_pairwise (sound : world.Sound) :
    (world.catalog.routes.entries.map fun entry => entry.2.service).Pairwise
      fun a b => a.hostname ≠ b.hostname := by
  have keys := (List.nodupKeys_iff_pairwise).mp world.catalog.routes.nodupKeys
  rw [List.pairwise_map]
  refine keys.imp_of_mem ?_
  intro first second member member' apart same
  exact apart (sound.local_apart (AList.mem_lookup_iff.mpr member)
    (AList.mem_lookup_iff.mpr member') same)

theorem World.Sound.route_device (sound : world.Sound) {entry : Sigma fun _ : String => LocalRoute}
    (member : entry ∈ world.catalog.routes.entries) :
    entry.2.service.deviceId = world.catalog.deviceId ∧
      validHostname entry.2.service.hostname = true ∧
      deviceLabelOf entry.2.service.hostname = world.catalog.names.deviceLabel := by
  obtain ⟨project, service, held, inside, -, -, -, device, hostname⟩ :=
    sound.routes (AList.mem_lookup_iff.mpr member)
  have label_valid := sound.names.labels held service.label
    (List.mem_cons_of_mem _ (List.mem_map_of_mem inside))
  rw [hostname]
  exact ⟨device, validHostname_iff.mpr ⟨_, _, rfl, sound.names.device, label_valid⟩,
    deviceLabelOf_hostnameOf sound.names.device⟩

theorem World.Sound.remote_device (sound : world.Sound) {service : PreviewService}
    (member : service ∈ world.catalog.remoteServices) :
    service.deviceId ≠ world.catalog.deviceId ∧ validHostname service.hostname = true ∧
      world.catalog.names.peerLabels.lookup service.deviceId =
        some (deviceLabelOf service.hostname) := by
  obtain ⟨⟨device, services⟩, entry, inside⟩ := List.mem_flatMap.mp member
  obtain ⟨apart, each⟩ := sound.remote (AList.mem_lookup_iff.mpr entry)
  obtain ⟨owner, label, rest, held, rest_valid, hostname⟩ := each service inside
  have label_valid := (sound.names.peers held).1
  rw [hostname, deviceLabelOf_hostnameOf label_valid, owner]
  exact ⟨apart, validHostname_iff.mpr ⟨_, _, rfl, label_valid, rest_valid⟩, held⟩

theorem World.Sound.byHostname_local (sound : world.Sound) {service : PreviewService}
    (member : service ∈ world.catalog.localServices) :
    world.catalog.byHostname service.hostname = some service := by
  obtain ⟨entry, stored, mine⟩ :=
    List.mem_map.mp ((List.perm_insertionSort _ _).mem_iff.mp member)
  have found : (world.catalog.routes.entries.find? fun other =>
      other.2.service.hostname = service.hostname).isSome = true := by
    rw [List.find?_isSome]
    exact ⟨entry, stored, by simp [mine]⟩
  obtain ⟨other, first⟩ := Option.isSome_iff_exists.mp found
  have same : other.2.service.hostname = service.hostname := by
    simpa using List.find?_some first
  have key := sound.local_apart (AList.mem_lookup_iff.mpr (List.mem_of_find?_eq_some first))
    (AList.mem_lookup_iff.mpr stored) (by rw [same, mine])
  have one : other = entry := world.catalog.routes.nodupKeys.eq_of_fst_eq
    (List.mem_of_find?_eq_some first) stored key
  unfold Catalog.byHostname
  rw [first]
  simp [one, mine]

/-- From an empty registry on, through failed writes and restarts: every published
hostname is well formed, local hostnames differ, devices never share a label, and a
local hostname leads to the local service that bears it. -/
theorem hostnames_valid_and_unambiguous {machine : Machine} {deviceId deviceName : String}
    {drawn : Nat} {world : World}
    (runs : Reaches (World.step machine) (fun _ _ => True)
      (World.opened none deviceId deviceName drawn) world) :
    (∀ service ∈ world.catalog.snapshot.services, validHostname service.hostname = true) ∧
    (world.catalog.snapshot.services.filter fun service =>
      service.deviceId = world.catalog.deviceId).Pairwise (fun a b => a.hostname ≠ b.hostname) ∧
    (∀ service ∈ world.catalog.snapshot.services, service.deviceId ≠ world.catalog.deviceId →
      deviceLabelOf service.hostname ≠ world.catalog.names.deviceLabel ∧
      ∀ device label, device ≠ service.deviceId →
        world.catalog.names.peerLabels.lookup device = some label →
          deviceLabelOf service.hostname ≠ label) ∧
    (∀ a ∈ world.catalog.snapshot.services, ∀ b ∈ world.catalog.snapshot.services,
      a.deviceId ≠ b.deviceId → deviceLabelOf a.hostname ≠ deviceLabelOf b.hostname) ∧
    (∀ service ∈ world.catalog.snapshot.services, service.deviceId = world.catalog.deviceId →
      world.catalog.byHostname service.hostname = some service) := by
  have sound : world.Sound := runs.keeps (World.sound_opened (by simp) deviceId deviceName drawn)
    (fun _ _ _ held _ stepped => held.step stepped)
  have published : ∀ {service}, service ∈ world.catalog.snapshot.services ↔
      (∃ entry ∈ world.catalog.routes.entries, entry.2.service = service) ∨
        service ∈ world.catalog.remoteServices := by
    intro service
    rw [sound.published.mem_iff, List.mem_append, List.mem_map]
  have remote_of : ∀ {service}, service ∈ world.catalog.snapshot.services →
      service.deviceId ≠ world.catalog.deviceId → service ∈ world.catalog.remoteServices := by
    intro service member foreign
    rcases published.mp member with ⟨entry, stored, rfl⟩ | remote
    · exact absurd (sound.route_device stored).1 foreign
    · exact remote
  have unlike : ∀ {service}, service ∈ world.catalog.remoteServices →
      deviceLabelOf service.hostname ≠ world.catalog.names.deviceLabel := fun remote =>
    (sound.names.peers (sound.remote_device remote).2.2).2
  refine ⟨?_, ?_, ?_, ?_, ?_⟩
  · intro service member
    rcases published.mp member with ⟨entry, stored, rfl⟩ | remote
    · exact (sound.route_device stored).2.1
    · exact (sound.remote_device remote).2.1
  · have filtered := sound.published.filter fun service =>
      service.deviceId = world.catalog.deviceId
    refine List.Pairwise.perm ?_ filtered.symm (fun apart same => apart same.symm)
    rw [List.filter_append]
    have none_remote : world.catalog.remoteServices.filter (fun service =>
        decide (service.deviceId = world.catalog.deviceId)) = [] := by
      rw [List.filter_eq_nil_iff]
      intro service remote
      simpa using (sound.remote_device remote).1
    rw [none_remote, List.append_nil]
    exact sound.locals_pairwise.filter _
  · intro service member foreign
    have remote := remote_of member foreign
    refine ⟨unlike remote, ?_⟩
    rintro device label different held rfl
    exact different (sound.names.peersApart held (sound.remote_device remote).2.2)
  · intro a memberA b memberB different same
    by_cases ownA : a.deviceId = world.catalog.deviceId
    · have remoteB := remote_of memberB (fun own => different (ownA.trans own.symm))
      rcases published.mp memberA with ⟨entry, stored, rfl⟩ | remoteA
      · exact unlike remoteB (same ▸ (sound.route_device stored).2.2)
      · exact (sound.remote_device remoteA).1 ownA
    · have remoteA := remote_of memberA ownA
      rcases published.mp memberB with ⟨entry, stored, rfl⟩ | remoteB
      · exact unlike remoteA (same ▸ (sound.route_device stored).2.2)
      · have labelB := (sound.remote_device remoteB).2.2
        rw [← same] at labelB
        exact different (sound.names.peersApart (sound.remote_device remoteA).2.2 labelB)
  · intro service member own
    apply sound.byHostname_local
    rcases published.mp member with ⟨entry, stored, rfl⟩ | remote
    · exact (List.perm_insertionSort _ _).mem_iff.mpr (List.mem_map_of_mem stored)
    · exact absurd own (sound.remote_device remote).1

def myApp : OsStr := osStr "/work/my-app"

def myListener (port pid : Nat) (command : String) : Listener :=
  ⟨pid, myApp, ["node", command, "--port", toString port], pid, .v4 2130706433 port, true⟩

def myMachine : Machine where
  sha256 text :=
    if text = "/work/my-app" ++ nul ++ "node" ++ nul ++ "vite" then
      "a93b21aee5102604b0f9ee6297dfc8ac25d320575f8e87e4426f2ac249149990"
    else if text = "/work/my-app" ++ nul ++ "node" ++ nul ++ "api.js" then
      "b0a6eff4660db4e87865006245cad4c7294d8d342c55b61c6658513bbbc32248"
    else text
  newV4 drawn := "8e0c1f5a-6b7d-4c2e-9f10-00000000000" ++ toString drawn

def peerService : PreviewService :=
  ⟨"a", "p", "my-app", "/work/my-app", "peer", "MacBook", "macbook.my-app.localhost", "Vite", 5173,
    1, "/work/my-app", 1, true⟩

/-- Two servers of one project, and a peer whose device has the same name. -/
theorem hostnames_valid_and_unambiguous_sameName :
    ∃ world, Reaches (World.step myMachine) (fun _ _ => True)
        (World.opened none "device" "MacBook" 0) world ∧
      world.catalog.snapshot.services.map PreviewService.hostname =
        ["macbook.my-app.localhost", "macbook.my-app-api.localhost",
          "macbook-2.my-app.localhost"] ∧
      (∀ service ∈ world.catalog.snapshot.services, validHostname service.hostname = true) ∧
      ∀ service ∈ world.catalog.snapshot.services, service.deviceId = world.catalog.deviceId →
        world.catalog.byHostname service.hostname = some service := by
  have ran : ((runAll (World.step myMachine) (fun _ _ => true)
      (World.opened none "device" "MacBook" 0)
      [.replaceLocal [⟨myApp, myListener 5173 1 "vite"⟩, ⟨myApp, myListener 3000 2 "api.js"⟩] true
          .asInserted,
        .setRemote "peer" [peerService] true]).map fun world =>
      world.catalog.snapshot.services.map PreviewService.hostname) =
        some ["macbook.my-app.localhost", "macbook.my-app-api.localhost",
          "macbook-2.my-app.localhost"] := by decide +kernel
  obtain ⟨world, ran, hostnames⟩ := Option.map_eq_some_iff.mp ran
  have runs := (reaches_of_runAll ran).mono (fun _ _ _ => trivial)
  obtain ⟨valid, -, -, -, found⟩ := hostnames_valid_and_unambiguous runs
  exact ⟨world, runs, hostnames, valid, found⟩

end Zeron.Preview
