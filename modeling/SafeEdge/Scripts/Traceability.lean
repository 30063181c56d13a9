import Mathlib.Data.Char
import Mathlib.Data.List.Lex
import Mathlib.Tactic

/-! `traceability.py`: the annotations of the sources, the matrix made of them, and the check that
the build runs. -/
namespace SafeEdge.Scripts

abbrev Text := List Char

/-- The classes `\s`, `\d` and `\w` of regular expressions. -/
structure CharacterClasses where
  isSpace : Char → Bool
  isDigit : Char → Bool
  isWord : Char → Bool

inductive Node where
  | directory
  | file (content : Text)
  | undecodable

/-- A file or directory under the root of the repository, by the components of its path. -/
structure Entry where
  path : List Text
  node : Node

abbrev Repository := List Entry

section Files

/-- Line ends are translated as a text is read. -/
def universalNewlines : Text → Text
  | [] => []
  | '\r' :: '\n' :: rest => '\n' :: universalNewlines rest
  | c :: rest => (if c = '\r' then '\n' else c) :: universalNewlines rest

/-- A node that is not a text raises. -/
def Node.readText : Node → Except Text Text
  | .file content => .ok (universalNewlines content)
  | .directory => .error "IsADirectoryError".toList
  | .undecodable => .error "UnicodeDecodeError".toList

def Node.isFile : Node → Bool
  | .directory => false
  | _ => true

namespace Repository
variable (repository : Repository)

def lookup (path : List Text) : Option Node :=
  (repository.find? fun entry => entry.path = path).map (·.node)

def isDir (path : List Text) : Bool :=
  match repository.lookup path with
  | some .directory => true
  | _ => false

/-- The file at a path, if there is one. -/
def fileAt (path : List Text) : Option Node := (repository.lookup path).filter Node.isFile

end Repository

def requirementsFile : List Text := ["docs".toList, "safety-requirements.md".toList]
def matrixFile : List Text := ["docs".toList, "traceability-matrix.md".toList]
def fmeaFile : List Text := ["docs".toList, "fmea.md".toList]

def implementationDirs : List Text := ["include".toList, "src".toList]
def verificationDirs : List Text := ["tests".toList, "fuzz".toList]
def sourceSuffixes : List Text := [".hpp".toList, ".cpp".toList, ".h".toList, ".cc".toList]

def extraImplementationFiles : List (List Text) :=
  [["Dockerfile".toList], ["deploy".toList, "docker-compose.yml".toList],
    ["deploy".toList, "prometheus.yml".toList]]

/-- `rglob` of a suffix below a directory, in the order of the paths. -/
def Repository.rglob (repository : Repository) (directory suffix : Text) : List Entry :=
  let found := repository.filter fun entry =>
    entry.path.head? = some directory ∧ 1 < entry.path.length ∧
      suffix <:+ entry.path.getLast?.getD []
  found.insertionSort fun first second => first.path ≤ second.path

def sourceFiles (repository : Repository) (directories : List Text) : List Entry :=
  let found := directories.flatMap fun directory =>
    if repository.isDir [directory] then sourceSuffixes.flatMap (repository.rglob directory) else []
  let extra := extraImplementationFiles.filterMap fun path =>
    (repository.fileAt path).map (Entry.mk path)
  if directories = implementationDirs then found ++ extra else found

def posixPath (path : List Text) : Text := "/".toList.intercalate path

def isLineBreak (c : Char) : Bool :=
  c ∈ ['\n', '\r', '\x0b', '\x0c', '\x1c', '\x1d', '\x1e', '\u0085', '\u2028', '\u2029']

def splitlinesFrom (line : Text) : Text → List Text
  | [] => if line = [] then [] else [line]
  | c :: rest =>
    if isLineBreak c then line :: splitlinesFrom [] rest else splitlinesFrom (line ++ [c]) rest

def splitlines (text : Text) : List Text := splitlinesFrom [] text

end Files

section Matching

/-- The rest of a text after a literal. -/
def skip (pattern text : Text) : Option Text :=
  if pattern <+: text then some (text.drop pattern.length) else none

/-- One or more characters of a class, as many as there are, and the rest. -/
def takeSome (inClass : Char → Bool) (text : Text) : Option (Text × Text) :=
  if (text.takeWhile inClass).isEmpty then none
  else some (text.takeWhile inClass, text.dropWhile inClass)

/-- The matches one after the other, where the first so many characters belong to the last one. -/
def findFrom {β : Type*} (find : Text → Option (β × Text)) (matched : ℕ) : Text → List β
  | [] => []
  | c :: rest =>
    if 0 < matched then findFrom find (matched - 1) rest
    else
      match find (c :: rest) with
      | some (found, after) => found :: findFrom find (rest.length - after.length) rest
      | none => findFrom find 0 rest

def findAll {β : Type*} (find : Text → Option (β × Text)) (text : Text) : List β :=
  findFrom find 0 text

def rstrip (inClass : Char → Bool) (text : Text) : Text :=
  (text.reverse.dropWhile inClass).reverse

def strip (inClass : Char → Bool) (text : Text) : Text := rstrip inClass (text.dropWhile inClass)

variable (classes : CharacterClasses)

/-- The title goes up to the trailing spaces. If there are only spaces, the last one is the
title. -/
def matchTitle (spaces rest : Text) : Option Text :=
  if rest ≠ [] then some (rstrip classes.isSpace rest)
  else if 2 ≤ spaces.length then spaces.getLast?.map ([·])
  else none

/-- `REQUIREMENT_HEADING`, with the identifier and the title. -/
def matchHeading (line : Text) : Option (Text × Text) := do
  let rest ← skip "###".toList line
  let (_, rest) ← takeSome classes.isSpace rest
  let rest ← skip "REQ-".toList rest
  let (area, rest) ← takeSome Char.isUpper rest
  let rest ← skip "-".toList rest
  let (number, rest) ← takeSome classes.isDigit rest
  let (_, rest) ← takeSome classes.isSpace rest
  let (_, rest) ← takeSome (· ∈ ['-', '—']) rest
  let (spaces, rest) ← takeSome classes.isSpace rest
  let title ← matchTitle classes spaces rest
  some ("REQ-".toList ++ area ++ "-".toList ++ number, title)

/-- `STATEMENT_LINE`, with the statement stripped. -/
def matchStatement (line : Text) : Option Text :=
  (skip "**Statement:**".toList line).map (strip classes.isSpace)

inductive AnnotationKind where
  | satisfies
  | verifies
  deriving DecidableEq

def AnnotationKind.name : AnnotationKind → Text
  | .satisfies => "satisfies".toList
  | .verifies => "verifies".toList

/-- `REQ-[A-Za-z0-9-]+` -/
def matchReference (text : Text) : Option (Text × Text) := do
  let rest ← skip "REQ-".toList text
  let (ident, rest) ← takeSome (fun c => c.isAlphanum || c == '-') rest
  some ("REQ-".toList ++ ident, rest)

/-- `ANNOTATION` -/
def matchAnnotationTag (text : Text) : Option ((AnnotationKind × Text) × Text) := do
  let (kind, rest) ← ((skip "@satisfies".toList text).map (AnnotationKind.satisfies, ·)).orElse
    fun _ => (skip "@verifies".toList text).map (AnnotationKind.verifies, ·)
  let (_, rest) ← takeSome classes.isSpace rest
  let (ident, rest) ← matchReference rest
  some ((kind, ident), rest)

/-- `TEST_DECLARATION`, with the name of the test. -/
def matchTest (line : Text) : Option Text := do
  let rest ← skip "TEST".toList (line.dropWhile classes.isSpace)
  let rest ← skip "(".toList ((skip "_F".toList rest).getD rest)
  let (suite, rest) ← takeSome classes.isWord (rest.dropWhile classes.isSpace)
  let rest ← skip ",".toList (rest.dropWhile classes.isSpace)
  let (test, rest) ← takeSome classes.isWord (rest.dropWhile classes.isSpace)
  let _ ← skip ")".toList (rest.dropWhile classes.isSpace)
  some (suite ++ ".".toList ++ test)

end Matching

structure Requirement where
  ident : Text
  title : Text
  statement : Text := []
  satisfiedBy : List Text := []
  verifiedBy : List Text := []

structure Annotation where
  kind : AnnotationKind
  ident : Text
  location : Text
  label : Text

section Requirements
variable (classes : CharacterClasses)

/-- One line of the requirements. The latest requirement stands first. -/
def parseLine (requirements : List Requirement) (number : ℕ) (line : Text) :
    Except Text (List Requirement) :=
  match matchHeading classes line with
  | some (ident, title) =>
    if requirements.any (·.ident = ident) then
      .error ("error: safety-requirements.md:".toList ++ Nat.toDigits 10 number ++
        ": duplicate requirement ".toList ++ ident)
    else .ok ({ ident, title } :: requirements)
  | none =>
    match matchStatement classes line, requirements with
    | some statement, current :: earlier =>
      if current.statement = [] then .ok ({ current with statement } :: earlier)
      else .ok requirements
    | _, _ => .ok requirements

def parseLines (requirements : List Requirement) (number : ℕ) :
    List Text → Except Text (List Requirement)
  | [] => .ok requirements
  | line :: lines => do
    let requirements ← parseLine classes requirements number line
    parseLines requirements (number + 1) lines

def parseRequirements (repository : Repository) : Except Text (List Requirement) :=
  match repository.fileAt requirementsFile with
  | none => .error ("error: requirements file not found: ".toList ++ posixPath requirementsFile)
  | some node => do
    let text ← node.readText
    let requirements ← parseLines classes [] 1 (splitlines text)
    match requirements.reverse.find? (·.statement = []) with
    | some requirement =>
      .error ("error: ".toList ++ requirement.ident ++ " has no **Statement:** line".toList)
    | none => .ok requirements.reverse

end Requirements

section Annotations
variable (classes : CharacterClasses)

/-- The nearest test at or above a line. -/
def enclosingTest (lines : List Text) (index : ℕ) : Option Text :=
  (lines.take (index + 1)).reverse.findSome? (matchTest classes)

/-- The annotations of one kind in a line. A verification is named by its test. -/
def annotationsAt (kind : AnnotationKind) (relative : Text) (lines : List Text) (index : ℕ)
    (line : Text) : List Annotation :=
  let test := if kind = .verifies then enclosingTest classes lines index else none
  (findAll (matchAnnotationTag classes) line).filterMap fun (foundKind, ident) =>
    if foundKind ≠ kind then none
    else
      some
        { kind := foundKind
          ident
          location := relative ++ ":".toList ++ Nat.toDigits 10 (index + 1)
          label := test.getD relative }

def annotationsIn (kind : AnnotationKind) (relative : Text) (lines : List Text) :
    List Annotation :=
  lines.zipIdx.flatMap fun (line, index) => annotationsAt classes kind relative lines index line

def collectFrom (kind : AnnotationKind) : List Entry → Except Text (List Annotation)
  | [] => .ok []
  | file :: files => do
    let text ← file.node.readText
    let rest ← collectFrom kind files
    .ok (annotationsIn classes kind (posixPath file.path) (splitlines text) ++ rest)

def collectAnnotations (repository : Repository) (directories : List Text)
    (kind : AnnotationKind) : Except Text (List Annotation) :=
  collectFrom classes kind (sourceFiles repository directories)

end Annotations

section Matrix

/-- A label is added once. -/
def Requirement.addLabel (requirement : Requirement) (kind : AnnotationKind) (label : Text) :
    Requirement :=
  match kind with
  | .satisfies =>
    if label ∈ requirement.satisfiedBy then requirement
    else { requirement with satisfiedBy := requirement.satisfiedBy ++ [label] }
  | .verifies =>
    if label ∈ requirement.verifiedBy then requirement
    else { requirement with verifiedBy := requirement.verifiedBy ++ [label] }

structure Links where
  requirements : List Requirement
  problems : List Text := []

def Links.link (links : Links) (kind : AnnotationKind) (mark : Annotation) : Links :=
  if links.requirements.any (·.ident = mark.ident) then
    { links with
      requirements := links.requirements.map fun requirement =>
        if requirement.ident = mark.ident then requirement.addLabel kind mark.label
        else requirement }
  else
    { links with
      problems := links.problems ++
        [mark.location ++ ": @".toList ++ kind.name ++
          " references unknown requirement ".toList ++ mark.ident] }

def Links.linkAll (links : Links) (kind : AnnotationKind) (annotations : List Annotation) : Links :=
  annotations.foldl (·.link kind ·) links

/-- The links that a requirement lacks. -/
def Requirement.problems (requirement : Requirement) : List Text :=
  (if requirement.satisfiedBy = [] then
    [requirement.ident ++ ": no implementation is annotated @satisfies ".toList ++
      requirement.ident]
  else []) ++
  (if requirement.verifiedBy = [] then
    [requirement.ident ++ ": no test is annotated @verifies ".toList ++ requirement.ident]
  else [])

def cell (items : List Text) : Text :=
  if items = [] then "—".toList
  else "<br>".toList.intercalate (items.map fun item => "`".toList ++ item ++ "`".toList)

def Requirement.row (requirement : Requirement) : Text :=
  "| **".toList ++ requirement.ident ++ "** | ".toList ++ requirement.title ++ " | ".toList ++
    cell requirement.satisfiedBy ++ " | ".toList ++ cell requirement.verifiedBy ++ " |".toList

def matrixLines (requirements : List Requirement) : List Text :=
  let count := Nat.toDigits 10 requirements.length
  let implemented := Nat.toDigits 10 (requirements.countP (·.satisfiedBy ≠ []))
  let verified := Nat.toDigits 10 (requirements.countP (·.verifiedBy ≠ []))
  ["# Requirements traceability matrix".toList,
    [],
    "**Generated by `scripts/traceability.py` — do not edit by hand.**".toList,
    [],
    "A hand-maintained matrix is accurate on the day it is written and wrong".toList,
    "ever after. This one is derived from `@satisfies` and `@verifies`".toList,
    "annotations in the source, and CI fails if any requirement has no".toList,
    "implementation link, no verification link, or if an annotation names a".toList,
    "requirement that does not exist.".toList,
    [],
    "- Requirements: **".toList ++ count ++ "**".toList,
    "- With an implementation link: **".toList ++ implemented ++ "/".toList ++ count ++
      "**".toList,
    "- With a verification link: **".toList ++ verified ++ "/".toList ++ count ++ "**".toList,
    [],
    "This is not a safety case. See `docs/safety-requirements.md`.".toList,
    [],
    "| Requirement | Title | Implemented by | Verified by |".toList,
    "|---|---|---|---|".toList] ++
  requirements.map Requirement.row ++ [[]]

variable (classes : CharacterClasses) (repository : Repository)

/-- The requirements with their links, and the problems. -/
def buildMatrix (requirements : List Requirement) : Except Text Links := do
  let satisfying ← collectAnnotations classes repository implementationDirs .satisfies
  let implemented := Links.linkAll { requirements } .satisfies satisfying
  let verifying ← collectAnnotations classes repository verificationDirs .verifies
  let linked := implemented.linkAll .verifies verifying
  .ok { linked with problems := linked.problems ++ linked.requirements.flatMap (·.problems) }

/-- The unknown references in one line of the FMEA. -/
def fmeaProblems (known : List Text) (number : ℕ) (line : Text) : List Text :=
  (findAll matchReference line).filterMap fun ident =>
    if ident ∈ known then none
    else some ("docs/fmea.md:".toList ++ Nat.toDigits 10 number ++
      ": references unknown requirement ".toList ++ ident)

def checkFmeaReferences (requirements : List Requirement) : Except Text (List Text) :=
  match repository.fileAt fmeaFile with
  | none => .ok ["fmea.md is missing".toList]
  | some node => do
    let text ← node.readText
    let known := requirements.map (·.ident)
    .ok ((splitlines text).zipIdx.flatMap fun (line, index) => fmeaProblems known (index + 1) line)

def rendered (requirements : List Requirement) : Text :=
  "\n".toList.intercalate (matrixLines requirements) ++ "\n".toList

/-- The status that is returned, and the matrix if it is written. -/
structure Outcome where
  status : ℕ
  written : Option Text := none
  deriving DecidableEq

/-- `main`, where an error is one that exits or is raised. -/
def main (check : Bool) : Except Text Outcome := do
  let requirements ← parseRequirements classes repository
  let links ← buildMatrix classes repository requirements
  let fmea ← checkFmeaReferences repository requirements
  if links.problems ++ fmea ≠ [] then .ok { status := 1 }
  else if check then
    match repository.fileAt matrixFile with
    | none => .ok { status := 1 }
    | some node => do
      let text ← node.readText
      .ok { status := if text ≠ rendered links.requirements then 1 else 0 }
  else .ok { status := 0, written := some (rendered links.requirements) }

end Matrix
end SafeEdge.Scripts
