import Zeron.Preview.Labels
import Zeron.Preview.Discovery

namespace Zeron.Preview

/-! # The preview catalog

Names are kept in a registry file and outlive the listeners they were given
to.  A scan matches listeners to names, adds the names that are missing and
publishes what it found beside the services other devices advertise.
-/

/-- The two things the catalog takes from elsewhere: a digest, and the identifiers
drawn at random, in the order they are drawn. -/
structure Machine where
  sha256 : String → String
  newV4 : Nat → String

abbrev Table (β : Type) := AList fun _ : String => β

structure ServiceName where
  id : String
  fingerprint : String
  label : String
  deriving DecidableEq

structure ProjectName where
  id : String
  label : String
  services : List ServiceName
  deriving DecidableEq

/-- What the registry file holds. -/
structure Names where
  deviceLabel : String
  peerLabels : Table String
  projects : Table ProjectName
  deriving DecidableEq

structure PreviewService where
  id : String
  projectId : String
  projectName : String
  projectCwd : String
  deviceId : String
  deviceName : String
  hostname : String
  name : String
  port : Nat
  pid : Nat
  cwd : String
  startedAt : Nat
  zeronOwned : Bool
  deriving DecidableEq

structure PreviewSnapshot where
  services : List PreviewService
  proxyPort : Nat
  error : Option String
  projectName : Option String
  remote : Bool
  deriving DecidableEq

structure LocalRoute where
  service : PreviewService
  listener : Listener
  deriving DecidableEq

def previewProxyPort : Nat := 7331

def PreviewSnapshot.default : PreviewSnapshot := ⟨[], previewProxyPort, none, none, false⟩

/-- The order a hash map is walked in: any order of its entries. -/
structure HashOrder where
  arrange : Table LocalRoute → Table LocalRoute
  perm : ∀ table, (arrange table).entries.Perm table.entries

def HashOrder.asInserted : HashOrder := ⟨fun table => table, fun _ => .refl _⟩

structure Catalog where
  deviceId : String
  deviceName : String
  names : Names
  routes : Table LocalRoute
  remote : Table (List PreviewService)
  proxyPort : Nat
  error : Option String
  snapshot : PreviewSnapshot

def Names.fresh (deviceLabel : String) : Names := ⟨deviceLabel, ∅, ∅⟩

/-- Open the catalog over the registry file, if there is one. -/
def openCatalog (file : Option Names) (deviceId deviceName : String) : Catalog :=
  let names := file.getD (Names.fresh "")
  let names :=
    if names.deviceLabel.isEmpty then { names with deviceLabel := slug deviceName } else names
  ⟨deviceId, deviceName, names, ∅, ∅, previewProxyPort, none, .default⟩

/-! ## Reading -/

def Catalog.localServices (catalog : Catalog) : List PreviewService :=
  (catalog.routes.entries.map fun entry => entry.2.service).insertionSort fun a b => a.id ≤ b.id

def Catalog.remoteServices (catalog : Catalog) : List PreviewService :=
  catalog.remote.entries.flatMap Sigma.snd

/-- Local aliases come first; a remote alias two devices share names neither. -/
def Catalog.byHostname (catalog : Catalog) (hostname : String) : Option PreviewService :=
  match catalog.routes.entries.find? fun entry => entry.2.service.hostname = hostname with
  | some entry => some entry.2.service
  | none =>
      match catalog.remoteServices.filter fun service => service.hostname = hostname with
      | [service] => some service
      | _ => none

def isFrontend (name : String) : Bool := name = "Vite" || name = "Next.js" || name = "Astro"

def PreviewService.order (a b : PreviewService) : Ordering :=
  (compare a.deviceId b.deviceId).then <|
  (compare a.projectCwd b.projectCwd).then <|
  (compare (!isFrontend a.name) (!isFrontend b.name)).then <|
  (compare a.hostname.utf8ByteSize b.hostname.utf8ByteSize).then <|
  compare a.hostname b.hostname

def Catalog.publish (catalog : Catalog) : Catalog :=
  let services :=
    catalog.routes.entries.map (fun entry => entry.2.service) ++ catalog.remoteServices
  { catalog with
    snapshot :=
      { services := services.insertionSort fun a b => (a.order b).isLE = true
        proxyPort := catalog.proxyPort
        error := catalog.error
        projectName := none
        remote := false } }

/-! ## One scan -/

def ProjectName.labels (project : ProjectName) : List String :=
  project.label :: project.services.map ServiceName.label

def Names.labels (names : Names) : List String :=
  names.projects.entries.flatMap fun entry => entry.2.labels

/-- The scan under way: names as they grow, the routes found so far. -/
structure Pass where
  names : Names
  used : List String
  next : Table LocalRoute
  seen : List (List Component × Nat)
  changed : Bool
  drawn : Nat

def Pass.start (names : Names) (drawn : Nat) : Pass := ⟨names, names.labels, ∅, [], false, drawn⟩

def Pass.nameProject (machine : Machine) (pass : Pass) (root : OsStr) : Option Pass :=
  if toStringLossy root ∈ pass.names.projects then some pass
  else do
    let label ← allocate (slug (((fileName root).bind toStr).getD "project")) pass.used
    let project : ProjectName := ⟨machine.newV4 pass.drawn, label, []⟩
    some { pass with
      names := { pass.names with
        projects := pass.names.projects.insert (toStringLossy root) project }
      used := label :: pass.used
      changed := true
      drawn := pass.drawn + 1 }

def fingerprint (machine : Machine) (listener : Listener) : String :=
  machine.sha256 (identityText listener)

/-- The identifier the same process held on the same port, whatever its root. -/
def previousId (routes : Table LocalRoute) (listener : Listener) : Option String :=
  (routes.entries.find? fun entry =>
    entry.2.listener.pid = listener.pid ∧ entry.2.listener.startedAt = listener.startedAt ∧
      entry.2.listener.port = listener.port).map fun entry => entry.2.service.id

def ProjectName.reuse (project : ProjectName) (print : String) (previous : Option String)
    (next : Table LocalRoute) : Option String :=
  ((project.services.find? fun service =>
      service.fingerprint = print ∧ previous = some service.id ∧ service.id ∉ next).or
    (project.services.find? fun service =>
      service.fingerprint = print ∧ service.id ∉ next)).map ServiceName.id

def roleOf (listener : Listener) : String := serviceRole listener (framework listener.args).1

/-- The first service of a project goes by the project's label. -/
def ProjectName.serviceLabel (project : ProjectName) (role : String) (used : List String) :
    Option String :=
  if project.services.isEmpty then some project.label
  else allocate (project.label ++ "-" ++ slug role) used

/-- A name for a listener no stored name fits. -/
def Pass.nameService (machine : Machine) (pass : Pass) (cwd : String) (project : ProjectName)
    (print role : String) : Option (String × Pass) := do
  let label ← project.serviceLabel role pass.used
  let id := machine.newV4 pass.drawn
  let named := { project with services := project.services ++ [⟨id, print, label⟩] }
  some (id, { pass with
    names := { pass.names with projects := pass.names.projects.insert cwd named }
    used := label :: pass.used
    changed := true
    drawn := pass.drawn + 1 })

def hostnameOf (device service : String) : String := device ++ "." ++ service ++ ".localhost"

def routeFor (catalog : Catalog) (deviceLabel : String) (project : ProjectName)
    (service : ServiceName) (seen : Observation) : LocalRoute where
  service :=
    { id := service.id
      projectId := project.id
      projectName := toStringLossy ((fileName seen.root).getD [])
      projectCwd := toStringLossy seen.root
      deviceId := catalog.deviceId
      deviceName := catalog.deviceName
      hostname := hostnameOf deviceLabel service.label
      name := roleOf seen.listener
      port := seen.listener.port
      pid := seen.listener.pid
      cwd := toStringLossy seen.listener.cwd
      startedAt := seen.listener.startedAt
      zeronOwned := seen.listener.zeronOwned }
  listener := seen.listener

def Pass.record (catalog : Catalog) (pass : Pass) (id : String) (seen : Observation) :
    Option Pass := do
  let project ← pass.names.projects.lookup (toStringLossy seen.root)
  let service ← project.services.find? fun service => service.id = id
  some { pass with
    next := pass.next.insert id (routeFor catalog pass.names.deviceLabel project service seen) }

/-- A root's port; a second listener on it is passed over. -/
def Observation.spot (seen : Observation) : List Component × Nat :=
  (components seen.root, seen.listener.port)

/-- One listener of the scan. -/
def Pass.place (machine : Machine) (catalog : Catalog) (pass : Pass) (seen : Observation) :
    Option Pass :=
  if seen.spot ∈ pass.seen then some pass
  else do
    let pass ← { pass with seen := seen.spot :: pass.seen }.nameProject machine seen.root
    let project ← pass.names.projects.lookup (toStringLossy seen.root)
    let print := fingerprint machine seen.listener
    match project.reuse print (previousId catalog.routes seen.listener) pass.next with
    | some id => pass.record catalog id seen
    | none =>
        let (id, pass) ←
          pass.nameService machine (toStringLossy seen.root) project print (roleOf seen.listener)
        pass.record catalog id seen

def Pass.placeAll (machine : Machine) (catalog : Catalog) : Pass → List Observation → Option Pass
  | pass, [] => some pass
  | pass, seen :: rest => do (← pass.place machine catalog seen).placeAll machine catalog rest

/-- The listeners a call looks at, in the order it does. -/
def scanOf (observations : List Observation) : List Observation := (sorted observations).take 256

/-! ## Calls -/

inductive Reply where
  | ok
  | refused (reason : String)
  | unwritten
  deriving DecidableEq

/-- One device: its registry file, its catalog, how many identifiers were drawn,
and what the last calls that succeeded were given. -/
structure World where
  file : Option Names
  catalog : Catalog
  drawn : Nat
  reply : Reply
  observed : List Observation
  advertised : Table (List PreviewService)

def World.opened (file : Option Names) (deviceId deviceName : String) (drawn : Nat) : World :=
  ⟨file, openCatalog file deviceId deviceName, drawn, .ok, [], ∅⟩

/-- `replace_local`.  The write replaces the file whole or leaves it; names added
before a failed write stay in memory. -/
def World.replaceLocal (machine : Machine) (world : World) (observations : List Observation)
    (persists : Bool) (order : HashOrder) : Option World := do
  let pass ← (Pass.start world.catalog.names world.drawn).placeAll machine world.catalog
    (scanOf observations)
  let named := { world.catalog with names := pass.names }
  if pass.changed && !persists then
    some { world with catalog := named, drawn := pass.drawn, reply := .unwritten }
  else
    some { world with
      file := if pass.changed then some pass.names else world.file
      catalog := { named with routes := order.arrange pass.next }.publish
      drawn := pass.drawn
      reply := .ok
      observed := observations }

def advertisementOk (device : String) (services : List PreviewService) : Bool :=
  (services.all fun service =>
    service.deviceId = device && validHostname service.hostname &&
      decide (service.id.utf8ByteSize ≤ 128) && !service.id.isEmpty &&
      decide (service.projectCwd.utf8ByteSize ≤ 4096) &&
      decide (service.name.utf8ByteSize ≤ 128)) &&
    decide (services.map PreviewService.id).Nodup

def deviceLabelOf (hostname : String) : String :=
  String.ofList (hostname.toList.takeWhile (· != '.'))

/-- Everything behind the first dot. -/
def restOf (hostname : String) : String :=
  String.ofList ((hostname.toList.dropWhile (· != '.')).drop 1)

def underLabel (label : String) (service : PreviewService) : PreviewService :=
  { service with hostname := label ++ "." ++ restOf service.hostname }

def World.showRemote (world : World) (device : String) (services named : List PreviewService) :
    World :=
  { world with
    catalog := { world.catalog with remote := world.catalog.remote.insert device named }.publish
    reply := .ok
    advertised := world.advertised.insert device services }

/-- `set_remote`.  The first advertisement of a device settles its label here. -/
def World.setRemote (world : World) (device : String) (services : List PreviewService)
    (persists : Bool) : Option World :=
  if device = world.catalog.deviceId then
    some { world with reply := .refused "cannot replace the local device catalog" }
  else if 256 < services.length then
    some { world with reply := .refused "too many advertised preview services" }
  else if !advertisementOk device services then
    some { world with reply := .refused "invalid peer service advertisement" }
  else
    match services with
    | [] => some (world.showRemote device services [])
    | first :: _ =>
        let names := world.catalog.names
        match names.peerLabels.lookup device with
        | some label => some (world.showRemote device services (services.map (underLabel label)))
        | none => do
            let used := names.peerLabels.entries.map Sigma.snd ++ [names.deviceLabel]
            let label ← allocate (deviceLabelOf first.hostname) used
            let names := { names with peerLabels := names.peerLabels.insert device label }
            let world := { world with catalog := { world.catalog with names := names } }
            if persists then
              some ({ world with file := some names }.showRemote device services
                (services.map (underLabel label)))
            else
              some { world with reply := .unwritten }

def World.removeRemote (world : World) (device : String) : World :=
  { world with
    catalog := { world.catalog with remote := world.catalog.remote.erase device }.publish
    advertised := world.advertised.erase device }

def World.clearRemote (world : World) : World :=
  { world with
    catalog := { world.catalog with remote := ∅ }.publish
    advertised := ∅ }

def World.setProxyStatus (world : World) (port : Nat) (error : Option String) : World :=
  { world with catalog := { world.catalog with proxyPort := port, error := error }.publish }

inductive Call where
  | replaceLocal (observations : List Observation) (persists : Bool) (order : HashOrder)
  | setRemote (device : String) (services : List PreviewService) (persists : Bool)
  | removeRemote (device : String)
  | clearRemote
  | setProxyStatus (port : Nat) (error : Option String)
  | restart (deviceId deviceName : String)

/-- One call, or a restart.  A call that panics leaves nothing to call. -/
def World.step (machine : Machine) (world : World) : Call → Option World
  | .replaceLocal observations persists order =>
      world.replaceLocal machine observations persists order
  | .setRemote device services persists => world.setRemote device services persists
  | .removeRemote device => some (world.removeRemote device)
  | .clearRemote => some world.clearRemote
  | .setProxyStatus port error => some (world.setProxyStatus port error)
  | .restart deviceId deviceName => some (.opened world.file deviceId deviceName world.drawn)

end Zeron.Preview
