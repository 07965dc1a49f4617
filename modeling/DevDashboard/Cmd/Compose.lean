/-
  File:      DevDashboard/Cmd/Compose.lean
  Subject:   THE ADDRESSES OF COMPOSE PROJECTS (`ComposeEnv` of `pkg/discovery/scan_compose.go`,
             `translate` of `cmd/reconciler.go`).

  A component file in a directory of a compose project has its address looked up in the tables of
  that project. Go ranges over a map in an order of its own (`Ranges`), a new one each time.

  * `translateIn` -- the metadata that `translate` leaves, in one order.
-/
import DevDashboard.Discovery.Containers
import DevDashboard.StateStore.Translate

namespace DevDashboard.Cmd

open Lib StateStore Discovery

/-- `ComposeProject`. A published port is an `int`. -/
structure ComposeProject where
  servicePorts : Dict Str (Dict Int Int)
  mounts : Dict Str Str
  isInt : ∀ service ports port hp, servicePorts.get service = some ports →
    ports.get port = some hp → IsInt hp

namespace ComposeProject

/-- The project of a name that is missing. -/
def empty : ComposeProject := ⟨.empty, .empty, fun _ _ _ _ h => by cases h⟩

/-- The host port under which a service publishes a port. -/
def published (proj : ComposeProject) (host : Str) (port : Int) : Option Int :=
  (proj.servicePorts.get host).bind fun ports => ports.get port

theorem isInt_published {proj : ComposeProject} {host : Str} {port hp : Int}
    (h : proj.published host port = some hp) : IsInt hp := by
  obtain ⟨ports, hports, hp'⟩ := Option.bind_eq_some_iff.mp h
  exact proj.isInt _ _ _ _ hports hp'

end ComposeProject

/-- `ComposeEnv`. -/
structure ComposeEnv where
  projects : Dict Str ComposeProject
  pathProject : Dict Str Str

/-- The project of a name. -/
def ComposeEnv.project (env : ComposeEnv) (name : Str) : ComposeProject :=
  (env.projects.get name).getD .empty

/-- The orders in which one call ranges over `PathProject` and over the mounts of a project. -/
structure Ranges where
  paths : Dict Str Str → List (Str × Str)
  mounts : Dict Str Str → List (Str × Str)
  paths_perm : ∀ m, (paths m).Perm m.entries
  mounts_perm : ∀ m, (mounts m).Perm m.entries

/-- The order of the keys. -/
def Ranges.sorted : Ranges := ⟨Dict.entries, Dict.entries, fun _ => .refl _, fun _ => .refl _⟩

/-- Does a directory hold a path? Both are made absolute. -/
def holds (cwd dir p : Str) : Bool :=
  let abs := Path.abs cwd p
  let d := Path.abs cwd dir
  decide (abs = d) || Path.inside (Path.rel d abs)

/-- `ProjectForPath`. -/
def projectForPath (cwd : Str) (env : ComposeEnv) (rg : Ranges) (p : Str) : Option Str :=
  ((rg.paths env.pathProject).find? fun x => holds cwd x.1 p).map Prod.snd

def localhost : Str := "localhost".toList

/-- The address of a published port. -/
def localAddr (hp : Int) : Str := localhost ++ ':' :: itoa hp

/-- The host lookup of `translate`. -/
def hostsOf (proj : ComposeProject) : HostLookup := fun host port =>
  (proj.published host port).map localAddr

/-- The path lookup of `translate`. -/
def pathsOf (rg : Ranges) (proj : ComposeProject) : PathLookup :=
  translateMountPath (rg.mounts proj.mounts)

/-- The metadata that `translate` leaves of a component with a path. -/
def translateIn (parse : Str → Option NetURL) (cwd : Str) (env : ComposeEnv) (rg : Ranges)
    (c : StoreComponent) : Dict Str Str :=
  match projectForPath cwd env rg c.path with
  | none => c.metadata
  | some name =>
      translateMetadata parse (hostsOf (env.project name)) (pathsOf rg (env.project name)) c.type
        c.metadata

end DevDashboard.Cmd
