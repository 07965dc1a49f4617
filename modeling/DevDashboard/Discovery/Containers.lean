/-
  File:      DevDashboard/Discovery/Containers.lean
  Subject:   INSPECTED CONTAINERS (`pkg/discovery/compose_inspect.go`,
             `pkg/discovery/compose_args.go`): labels, the flags of a daprd, bind mounts.

  A container is what is left of its `inspect` document. Go ranges over a map in any order, so the
  mount tables come with the order in which a range goes through them.

  * `parseDaprdArgs` -- the flags of a daprd in an argv;
  * `translateMountPath` -- a path of a container on the host.
-/
import DevDashboard.Lib.Dict
import DevDashboard.Lib.Path
import Mathlib.Data.List.Lex
import Mathlib.Data.Char
import Mathlib.Algebra.Order.Ring.Int

namespace DevDashboard.Discovery

open Lib

/-! ## 1. Containers -/

def labelComposeProject : Str := "com.docker.compose.project".toList

def labelComposeService : Str := "com.docker.compose.service".toList

def labelTestcontainers : Str := "org.testcontainers".toList

def labelTestcontainersSessionID : Str := "org.testcontainers.sessionId".toList

/-- A value read from a map of texts; what is missing reads as the empty text. -/
def textOf (m : Dict Str Str) (k : Str) : Str := (m.get k).getD []

/-- `composeContainer`. The runtime gives every container a name. -/
structure Container where
  id : Str
  name : Str
  image : Str := []
  labels : Dict Str Str := .empty
  running : Bool := true
  startedAt : Str := []
  argv : List Str := []
  ports : Dict Int Int := .empty
  mounts : Dict Str Str := .empty
  env : List Str := []
  configFiles : Str := []
  workingDir : Str := []
  named : name ≠ []

namespace Container

def project (c : Container) : Str := textOf c.labels labelComposeProject

def service (c : Container) : Str := textOf c.labels labelComposeService

/-- The host port under which a port of the container is published, 0 if it is not. -/
def hostPort (c : Container) (port : Int) : Int := (c.ports.get port).getD 0

/-- Is the container labelled `org.testcontainers=true`? -/
def testcontainers (c : Container) : Bool :=
  decide (c.labels.get labelTestcontainers = some "true".toList)

end Container

/-! ## 2. The flags of a daprd -/

/-- `path.Base`. -/
def base (p : Str) : Str :=
  if p = [] then ['.']
  else
    let last := Path.lastElem (p.reverse.dropWhile (· = '/')).reverse
    if last = [] then ['/'] else last

/-- `strconv.Atoi` where its error is dropped: 0 for what is no number, the nearest number for what
    is out of range. -/
def atoi (s : Str) : Int :=
  let (negative, digits) := match s with
    | '-' :: ds => (true, ds)
    | '+' :: ds => (false, ds)
    | ds => (false, ds)
  if digits = [] ∨ digits.all Char.isDigit = false then 0
  else
    let n : Int := Nat.ofDigitChars 10 digits 0
    if negative then max (-n) (-2 ^ 63) else min n (2 ^ 63 - 1)

/-- Is a token a flag? -/
def isFlag (tok : Str) : Bool := Str.hasPrefix tok ['-']

/-- `parseFlags`. A token after a flag is its value unless it is a flag itself. -/
def parseFlags : List Str → Dict Str Str → Dict Str Str
  | [], flags => flags
  | tok :: rest, flags =>
      if !isFlag tok then parseFlags rest flags
      else
        let name := tok.dropWhile (· = '-')
        if '=' ∈ name then
          parseFlags rest (flags.put (name.takeWhile (· ≠ '=')) ((name.dropWhile (· ≠ '=')).drop 1))
        else
          match rest with
          | [] => flags
          | value :: rest' =>
              if isFlag value then parseFlags (value :: rest') flags
              else parseFlags rest' (flags.put name value)

/-- `daprdArgs`. -/
structure DaprdArgs where
  appID : Str
  appChannelAddress : Str
  resourcesPath : Str
  configPath : Str
  appProtocol : Str
  appPort : Int
  httpPort : Int
  grpcPort : Int

/-- A port, or the one a daprd takes without the flag. -/
def portOr (port default : Int) : Int := if port = 0 then default else port

def daprd : Str := "daprd".toList

/-- `parseDaprdArgs`; `none` if nothing in the argv is a daprd. -/
def parseDaprdArgs (argv : List Str) : Option DaprdArgs :=
  match argv.dropWhile fun tok => decide (base tok ≠ daprd) with
  | [] => none
  | _ :: args =>
      let flags := textOf (parseFlags args .empty)
      let resources := flags "resources-path".toList
      some {
        appID := flags "app-id".toList
        appChannelAddress := flags "app-channel-address".toList
        resourcesPath := if resources = [] then flags "components-path".toList else resources
        configPath := flags "config".toList
        appProtocol := flags "app-protocol".toList
        appPort := atoi (flags "app-port".toList)
        httpPort := portOr (atoi (flags "dapr-http-port".toList)) 3500
        grpcPort := portOr (atoi (flags "dapr-grpc-port".toList)) 50001 }

/-- A container that runs a daprd with an app-id. -/
def sidecarArgs (c : Container) : Option DaprdArgs :=
  (parseDaprdArgs c.argv).filter fun a => decide (a.appID ≠ [])

/-! ## 3. Bind mounts -/

/-- `strings.TrimSuffix` of one slash. -/
def trimSlash (p : Str) : Str := if p.getLast? = some '/' then p.dropLast else p

/-- `filepath.Join` of two elements, of which empty ones are left out. -/
def joinPath (dir name : Str) : Str :=
  if dir = [] then (if name = [] then [] else Path.clean name) else Path.join dir name

/-- One mount of `TranslateMountPath`. -/
def throughMount (p : Str) (mount : Str × Str) : Option Str :=
  let d := trimSlash mount.1
  if p = d then some mount.2
  else if Str.hasPrefix p (d ++ ['/']) then some (joinPath mount.2 (Str.trimPrefix p (d ++ ['/'])))
  else none

/-- `TranslateMountPath`: the first mount that fits, as the range goes. -/
def translateMountPath (mounts : List (Str × Str)) (containerPath : Str) : Option Str :=
  mounts.findSome? (throughMount (trimSlash containerPath))

end DevDashboard.Discovery
