/-
  File:      DevDashboard/SelfUpdate/Release.lean
  Subject:   WHAT AN UPDATE DOWNLOADS (`pkg/selfupdate`: `asset.go`, `resolve.go`, `download.go`,
             `extract.go`).

  The release server answers each of the three requests of an update as it likes (`Server`). The
  readers of JSON, gzip, tar and zip and the hash are a parameter (`Libraries`): of an archive they
  give the entries in their order, each with its content or the error of reading it. The lines
  that `Run` writes for the user are left out.

  * `listedChecksum`, `binaryEntry` -- what `checksums.txt` lists for a name, and the entry of an
    archive under the name of the binary;
  * `httpGet_ok_iff`, `verifyChecksum_ok_iff`, `extractBinary_ok_iff` -- when each step succeeds.
-/
import DevDashboard.Lib.Utf8
import DevDashboard.Lib.Json
import DevDashboard.StateStore.ConnInfo

namespace DevDashboard.SelfUpdate

open Lib StateStore
open Url (Octets utf8)

/-! ## 1. Versions and names -/

/-- `normalizeVersion`. -/
def normalizeVersion (v : Str) : Str :=
  let v := trimSpace v
  if v = [] then [] else 'v' :: Str.trimPrefix v "v".toList

/-- `versionsEqual`. -/
def versionsEqual (a b : Str) : Bool :=
  Str.trimPrefix (trimSpace a) "v".toList = Str.trimPrefix (trimSpace b) "v".toList

/-- `assetName`. -/
def assetName (version goos goarch : Str) : Str :=
  let num := Str.trimPrefix (trimSpace version) "v".toList
  let ext := if goos = "windows".toList then "zip".toList else "tar.gz".toList
  "diagrid-dev-dashboard_".toList ++ num ++ "_".toList ++ goos ++ "_".toList ++ goarch ++
    ".".toList ++ ext

/-- `binaryFileName`. -/
def binaryFileName (goos : Str) : Str :=
  if goos = "windows".toList then "diagrid-dev-dashboard.exe".toList
  else "diagrid-dev-dashboard".toList

/-! ## 2. The release server -/

/-- The requests of an update, in their order. -/
inductive Request where
  | latest
  | archive
  | checksums
  deriving DecidableEq

/-- `http.Response`; `readError` is what reading the body ends with instead of its end. -/
structure Response where
  statusCode : Nat
  status : Str
  body : Octets
  readError : Option Str

/-- The server's answer to a request for a URL; an error is one of `http.Client`. -/
abbrev Server := Request → Str → Except Str Response

/-- The errors of `httpGet`: `errNotFound`, or a text. -/
inductive GetError where
  | notFound
  | other (text : Str)

/-- `err.Error()`. -/
def GetError.text : GetError → Str
  | .notFound => "not found".toList
  | .other text => text

/-- `maxDownloadBytes`. -/
def maxDownloadBytes : Nat := 200 * 2 ^ 20

/-- `httpGet`. One byte past the limit is read, so an error behind it goes unseen. -/
def httpGet (server : Server) (req : Request) (url : Str) : Except GetError Octets :=
  match server req url with
  | .error e => .error (.other e)
  | .ok resp =>
      if resp.statusCode = 404 then .error .notFound
      else if resp.statusCode ≠ 200 then
        .error (.other ("GET ".toList ++ url ++ ": status ".toList ++ resp.status))
      else if maxDownloadBytes < resp.body.length then
        .error (.other ("GET ".toList ++ url ++ ": response exceeds ".toList ++
          Nat.toDigits 10 maxDownloadBytes ++ " byte limit".toList))
      else
        match resp.readError with
        | some e => .error (.other e)
        | none => .ok resp.body

/-- The server serves the bytes under the URL: whole, with status 200 and within the limit. -/
def Served (server : Server) (req : Request) (url : Str) (body : Octets) : Prop :=
  ∃ resp, server req url = .ok resp ∧ resp.statusCode = 200 ∧ resp.body = body ∧
    resp.readError = none ∧ body.length ≤ maxDownloadBytes

theorem httpGet_ok_iff {server : Server} {req : Request} {url : Str} {body : Octets} :
    httpGet server req url = .ok body ↔ Served server req url body := by
  unfold httpGet Served
  cases server req url with
  | error e => simp
  | ok resp =>
      simp only [Except.ok.injEq, exists_eq_left']
      constructor
      · intro h
        split_ifs at h with _ h200 hlen
        split at h
        · cases h
        · rename_i herr
          cases h
          exact ⟨not_not.mp h200, rfl, herr, not_lt.mp hlen⟩
      · rintro ⟨h200, rfl, herr, hlen⟩
        rw [if_neg (by omega), if_neg (by omega), if_neg (by omega), herr]

/-! ## 3. Checksums -/

/-- A Go string rune by rune, each with the bytes it is read from. -/
def runePieces : Nat → Octets → List (Char × Octets)
  | 0, _ => []
  | _ + 1, [] => []
  | n + 1, b :: bs =>
      match (b :: bs).toByteArray.utf8DecodeChar? 0 with
      | some c => (c, (b :: bs).take c.utf8Size) :: runePieces n ((b :: bs).drop c.utf8Size)
      | none => (runeError, [b]) :: runePieces n bs

/-- `strings.Fields` of a string that need not be UTF-8. -/
def fieldsOf (line : Octets) : List Octets :=
  (((runePieces line.length line).splitOnP fun p => isSpace p.1).filter (· ≠ [])).map
    fun field => field.flatMap (·.2)

/-- `hex.EncodeToString`. -/
def hexText (bytes : Octets) : Str :=
  bytes.flatMap fun b => [Json.hexDigit (b.toNat / 16), Json.hexDigit (b.toNat % 16)]

/-- What the libraries read out of the downloaded bytes: the `tag_name` of a release, SHA-256, a
    gzipped tar, and a zip. Of an archive they give the names of the entries, each with its content
    or the error of reading it. After the entries of a tar there may be an error, and an entry of a
    zip may fail to open. -/
structure Libraries where
  tagName : Octets → Except Str Str
  sha256 : Octets → Octets
  untarGz : Octets → Except Str (List (Str × Except Str Octets) × Option Str)
  unzip : Octets → Except Str (List (Str × Except Str (Except Str Octets)))

section Archive

variable (lib : Libraries)

/-- The loop of `verifyChecksum`, over the lines split into fields. -/
def matchLines (got : Octets) (name : Str) : List (List Octets) → Except Str Unit
  | [] => .error ("no checksum entry for ".toList ++ name)
  | [want, file] :: rest =>
      if file = utf8 name then
        if want = got then .ok ()
        else .error ("checksum mismatch for ".toList ++ name ++ ": got ".toList ++ runes got ++
          ", want ".toList ++ runes want)
      else matchLines got name rest
  | _ :: rest => matchLines got name rest

/-- `verifyChecksum`. -/
def verifyChecksum (archive : Octets) (name : Str) (checksumsTxt : Octets) : Except Str Unit :=
  matchLines (utf8 (hexText (lib.sha256 archive))) name ((checksumsTxt.splitOn 10).map fieldsOf)

/-- What lines list for a name: the first line with two fields whose second is the name. -/
def listedIn (name : Str) (lines : List (List Octets)) : Option Octets :=
  lines.findSome? fun
    | [want, file] => if file = utf8 name then some want else none
    | _ => none

/-- **What `checksums.txt` lists for a name.** -/
def listedChecksum (checksumsTxt : Octets) (name : Str) : Option Octets :=
  listedIn name ((checksumsTxt.splitOn 10).map fieldsOf)

theorem matchLines_ok_iff {got : Octets} {name : Str} {lines : List (List Octets)} :
    matchLines got name lines = .ok () ↔ listedIn name lines = some got := by
  fun_induction matchLines got name lines with
  | case1 => simp [listedIn]
  | case2 rest => simp [listedIn]
  | case3 want rest hne => simp [listedIn, hne]
  | case4 want file rest hne ih =>
      rw [ih]
      simp [listedIn, hne]
  | case5 line rest hline ih =>
      rw [ih]
      unfold listedIn
      rw [List.findSome?_cons]
      split
      · rename_i h
        split at h
        · exact absurd rfl (hline _ _)
        · cases h
      · rfl

theorem verifyChecksum_ok_iff {archive : Octets} {name : Str} {sums : Octets} :
    verifyChecksum lib archive name sums = .ok () ↔
      listedChecksum sums name = some (utf8 (hexText (lib.sha256 archive))) :=
  matchLines_ok_iff

/-! ## 4. The binary -/

/-- The entry of a zip or of a tar under a name: its content, or the error of the loop's end. -/
def entryContent (name : Str) (stop : Str) : List (Str × Except Str Octets) → Except Str Octets
  | [] => .error stop
  | (entry, content) :: rest => if entry = name then content else entryContent name stop rest

def binaryMissing (name : Str) : Str :=
  "binary ".toList ++ '"' :: name ++ "\" not found in archive".toList

/-- `extractFromTarGz`. -/
def extractFromTarGz (archive : Octets) (name : Str) : Except Str Octets :=
  match lib.untarGz archive with
  | .error e => .error ("open gzip: ".toList ++ e)
  | .ok (entries, some e) => entryContent name ("read tar: ".toList ++ e) entries
  | .ok (entries, none) => entryContent name (binaryMissing name) entries

/-- `f.Open` and reading it. -/
def zipContent : Except Str (Except Str Octets) → Except Str Octets
  | .error e => .error ("open zip entry: ".toList ++ e)
  | .ok content => content

/-- `extractFromZip`. -/
def extractFromZip (archive : Octets) (name : Str) : Except Str Octets :=
  match lib.unzip archive with
  | .error e => .error ("open zip: ".toList ++ e)
  | .ok files =>
      entryContent name (binaryMissing name) (files.map fun f => (f.1, zipContent f.2))

/-- `extractBinary`. -/
def extractBinary (archive : Octets) (goos : Str) : Except Str Octets :=
  let name := binaryFileName goos
  if goos = "windows".toList then extractFromZip lib archive name
  else extractFromTarGz lib archive name

/-- The entries that a release archive for a platform can be read to have. -/
def archiveEntries (archive : Octets) (goos : Str) : List (Str × Except Str Octets) :=
  if goos = "windows".toList then
    ((lib.unzip archive).toOption.getD []).map fun f => (f.1, zipContent f.2)
  else ((lib.untarGz archive).toOption.map (·.1)).getD []

/-- **The binary entry of an archive**: the first entry under the binary's name. -/
def BinaryEntry (archive : Octets) (goos : Str) (bin : Octets) : Prop :=
  (archiveEntries lib archive goos).find? (·.1 = binaryFileName goos) =
    some (binaryFileName goos, .ok bin)

theorem entryContent_ok_iff {name stop : Str} {entries : List (Str × Except Str Octets)}
    {bin : Octets} : entryContent name stop entries = .ok bin ↔
      entries.find? (·.1 = name) = some (name, .ok bin) := by
  induction entries with
  | nil => simp [entryContent]
  | cons e rest ih =>
      obtain ⟨entry, content⟩ := e
      unfold entryContent
      by_cases h : entry = name
      · subst h
        simp
      · rw [if_neg h, ih, List.find?_cons_of_neg (by simpa using h)]

theorem extractBinary_ok_iff {archive : Octets} {goos : Str} {bin : Octets} :
    extractBinary lib archive goos = .ok bin ↔ BinaryEntry lib archive goos bin := by
  unfold extractBinary BinaryEntry archiveEntries
  by_cases hw : goos = "windows".toList
  · simp only [if_pos hw, extractFromZip]
    cases lib.unzip archive with
    | error e => simp [Except.toOption]
    | ok entries => exact entryContent_ok_iff
  · simp only [if_neg hw, extractFromTarGz]
    rcases lib.untarGz archive with e | ⟨entries, _ | e⟩
    · simp [Except.toOption]
    · exact entryContent_ok_iff
    · exact entryContent_ok_iff

end Archive

end DevDashboard.SelfUpdate
