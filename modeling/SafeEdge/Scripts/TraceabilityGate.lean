import SafeEdge.Scripts.Traceability

/-! What a traceability check that passes says about the repository. -/
namespace SafeEdge.Scripts

/-- The lines of a file that can be read. -/
def Node.lines (node : Node) : List Text :=
  match node.readText with
  | .ok text => splitlines text
  | .error _ => []

section Specification
variable (classes : CharacterClasses) (repository : Repository)

def headingIdent (line : Text) : Option Text := (matchHeading classes line).map (·.1)

/-- The identifiers of the requirement headings. -/
def declared : List Text :=
  match repository.fileAt requirementsFile with
  | some node => node.lines.filterMap (headingIdent classes)
  | none => []

/-- All annotations in the files that are scanned for some directories, whatever their kind. -/
def annotated (directories : List Text) : List (AnnotationKind × Text) :=
  (sourceFiles repository directories).flatMap fun file =>
    file.node.lines.flatMap (findAll (matchAnnotationTag classes))

/-- The matrix that the script makes of the repository. -/
def generatedMatrix : Except Text Text := do
  let requirements ← parseRequirements classes repository
  let links ← buildMatrix classes repository requirements
  .ok (rendered links.requirements)

/-- Every requirement is implemented and verified, everything that is named is declared, and the
matrix is current. -/
structure Traced : Prop where
  satisfied : ∀ ident ∈ declared classes repository,
    (.satisfies, ident) ∈ annotated classes repository implementationDirs
  verified : ∀ ident ∈ declared classes repository,
    (.verifies, ident) ∈ annotated classes repository verificationDirs
  resolved : ∀ mark ∈ annotated classes repository implementationDirs ++
    annotated classes repository verificationDirs, mark.2 ∈ declared classes repository
  fmea : ∃ node, repository.fileAt fmeaFile = some node ∧
    ∀ line ∈ node.lines, ∀ ident ∈ findAll matchReference line, ident ∈ declared classes repository
  current : ∃ node text, repository.fileAt matrixFile = some node ∧ node.readText = .ok text ∧
    generatedMatrix classes repository = .ok text

end Specification

theorem Node.lines_of_readText {node : Node} {text : Text} (h : node.readText = .ok text) :
    node.lines = splitlines text := by
  simp [lines, h]

theorem exists_ok_of_bind {α β : Type} {first : Except Text α} {next : α → Except Text β} {b : β}
    (h : first >>= next = .ok b) : ∃ a, first = .ok a ∧ next a = .ok b := by
  cases first with
  | error message => exact nomatch h
  | ok a => exact ⟨a, rfl, h⟩

section Requirements
variable {classes : CharacterClasses}

/-- The parsed requirements are those of the headings, the latest first, and have no links yet. -/
structure Parsed (classes : CharacterClasses) (lines : List Text)
    (requirements : List Requirement) : Prop where
  idents : requirements.map (·.ident) = (lines.filterMap (headingIdent classes)).reverse
  unlinked : ∀ requirement ∈ requirements,
    requirement.satisfiedBy = [] ∧ requirement.verifiedBy = []

/-- A line without a heading at most sets the statement of the latest requirement. -/
theorem parseLine_of_no_heading {line : Text} (hheading : matchHeading classes line = none)
    (before : List Requirement) (number : ℕ) :
    parseLine classes before number line = .ok before ∨
      ∃ current earlier statement, before = current :: earlier ∧
        parseLine classes before number line = .ok ({ current with statement } :: earlier) := by
  simp only [parseLine, hheading]
  split
  · rename_i statement current earlier _
    split_ifs
    · exact Or.inr ⟨current, earlier, statement, rfl, rfl⟩
    · exact Or.inl rfl
  · exact Or.inl rfl

theorem Parsed.parseLine {lines : List Text} {line : Text} {number : ℕ}
    {before after : List Requirement} (h : Parsed classes lines before)
    (hparse : parseLine classes before number line = .ok after) :
    Parsed classes (lines ++ [line]) after := by
  cases hheading : matchHeading classes line with
  | some heading =>
    simp only [Scripts.parseLine, hheading] at hparse
    split_ifs at hparse
    obtain rfl := Except.ok.inj hparse
    constructor
    · simp [h.idents, headingIdent, hheading]
    · intro requirement hmem
      rcases List.mem_cons.mp hmem with rfl | hearlier
      · exact ⟨rfl, rfl⟩
      · exact h.unlinked requirement hearlier
  | none =>
    have hlines : (lines ++ [line]).filterMap (headingIdent classes) =
        lines.filterMap (headingIdent classes) := by
      simp [headingIdent, hheading]
    rcases parseLine_of_no_heading hheading before number with
      hsame | ⟨current, earlier, statement, rfl, hset⟩
    · obtain rfl := Except.ok.inj (hsame.symm.trans hparse)
      exact ⟨hlines ▸ h.idents, h.unlinked⟩
    · obtain rfl := Except.ok.inj (hset.symm.trans hparse)
      refine ⟨hlines ▸ h.idents, fun requirement hmem => ?_⟩
      rcases List.mem_cons.mp hmem with rfl | hearlier
      · exact h.unlinked current List.mem_cons_self
      · exact h.unlinked requirement (List.mem_cons_of_mem current hearlier)

theorem Parsed.parseLines {lines rest : List Text} {number : ℕ} {before after : List Requirement}
    (h : Parsed classes lines before) (hparse : parseLines classes before number rest = .ok after) :
    Parsed classes (lines ++ rest) after := by
  induction rest generalizing lines number before with
  | nil =>
    obtain rfl := Except.ok.inj hparse
    simpa using h
  | cons line rest ih =>
    obtain ⟨between, hline, hrest⟩ := exists_ok_of_bind hparse
    simpa using ih (h.parseLine hline) hrest

/-- The requirements are those declared in the file. -/
theorem parseRequirements_ok {repository : Repository} {requirements : List Requirement}
    (h : parseRequirements classes repository = .ok requirements) :
    requirements.map (·.ident) = declared classes repository ∧
      ∀ requirement ∈ requirements, requirement.satisfiedBy = [] ∧ requirement.verifiedBy = [] := by
  unfold parseRequirements at h
  cases hfile : repository.fileAt requirementsFile with
  | none =>
    rw [hfile] at h
    exact nomatch h
  | some node =>
    rw [hfile] at h
    obtain ⟨text, htext, h⟩ := exists_ok_of_bind h
    obtain ⟨parsed, hparse, h⟩ := exists_ok_of_bind h
    have hparsed : Parsed classes ([] ++ splitlines text) parsed :=
      Parsed.parseLines ⟨rfl, fun _ hmem => absurd hmem List.not_mem_nil⟩ hparse
    split at h
    · exact nomatch h
    · obtain rfl := Except.ok.inj h
      constructor
      · simp [declared, hfile, Node.lines_of_readText htext, hparsed.idents]
      · exact fun requirement hmem => hparsed.unlinked requirement (List.mem_reverse.mp hmem)

end Requirements

section Annotations
variable {classes : CharacterClasses}

/-- The identifiers of the annotations of one kind. -/
def identsOf (kind : AnnotationKind) (found : List (AnnotationKind × Text)) : List Text :=
  found.filterMap fun (foundKind, ident) => if foundKind ≠ kind then none else some ident

theorem mem_identsOf {kind : AnnotationKind} {found : List (AnnotationKind × Text)} {ident : Text} :
    ident ∈ identsOf kind found ↔ (kind, ident) ∈ found := by
  simp [identsOf]

theorem identsOf_append (kind : AnnotationKind) (first second : List (AnnotationKind × Text)) :
    identsOf kind (first ++ second) = identsOf kind first ++ identsOf kind second :=
  List.filterMap_append

theorem annotationsAt_idents (kind : AnnotationKind) (relative : Text) (lines : List Text)
    (index : ℕ) (line : Text) :
    (annotationsAt classes kind relative lines index line).map (·.ident) =
      identsOf kind (findAll (matchAnnotationTag classes) line) := by
  rw [annotationsAt, List.map_filterMap]
  refine congrArg (List.filterMap · _) (funext fun found => ?_)
  by_cases hkind : found.1 = kind <;> simp [hkind]

theorem annotationsIn_idents (kind : AnnotationKind) (relative : Text) (lines : List Text) :
    (annotationsIn classes kind relative lines).map (·.ident) =
      identsOf kind (lines.flatMap (findAll (matchAnnotationTag classes))) := by
  calc
    _ = lines.zipIdx.flatMap (fun indexed =>
          identsOf kind (findAll (matchAnnotationTag classes) indexed.1)) := by
        simp only [annotationsIn, List.map_flatMap, annotationsAt_idents]
    _ = (lines.zipIdx.map Prod.fst).flatMap (fun line =>
          identsOf kind (findAll (matchAnnotationTag classes) line)) := by
        rw [List.flatMap_map]
    _ = identsOf kind (lines.flatMap (findAll (matchAnnotationTag classes))) := by
        rw [List.zipIdx_map_fst, identsOf, List.filterMap_flatMap]
        rfl

theorem collectFrom_idents {kind : AnnotationKind} {files : List Entry}
    {annotations : List Annotation} (h : collectFrom classes kind files = .ok annotations) :
    annotations.map (·.ident) = identsOf kind (files.flatMap fun file =>
      file.node.lines.flatMap (findAll (matchAnnotationTag classes))) := by
  induction files generalizing annotations with
  | nil =>
    obtain rfl := Except.ok.inj h
    rfl
  | cons file files ih =>
    obtain ⟨text, htext, h⟩ := exists_ok_of_bind h
    obtain ⟨rest, hrest, h⟩ := exists_ok_of_bind h
    obtain rfl := Except.ok.inj h
    rw [List.map_append, annotationsIn_idents, ih hrest, List.flatMap_cons, identsOf_append,
      Node.lines_of_readText htext]

theorem collectAnnotations_idents {repository : Repository} {directories : List Text}
    {kind : AnnotationKind} {annotations : List Annotation}
    (h : collectAnnotations classes repository directories kind = .ok annotations) (ident : Text) :
    (∃ mark ∈ annotations, mark.ident = ident) ↔
      (kind, ident) ∈ annotated classes repository directories := by
  rw [← List.mem_map, collectFrom_idents h, mem_identsOf, annotated]

end Annotations

section Links
variable {kind other : AnnotationKind}

def Requirement.labels (requirement : Requirement) : AnnotationKind → List Text
  | .satisfies => requirement.satisfiedBy
  | .verifies => requirement.verifiedBy

theorem Requirement.addLabel_ident (requirement : Requirement) (label : Text) :
    (requirement.addLabel kind label).ident = requirement.ident := by
  unfold addLabel
  split <;> split_ifs <;> rfl

theorem Requirement.labels_addLabel (requirement : Requirement) (label : Text) (h : other ≠ kind) :
    (requirement.addLabel kind label).labels other = requirement.labels other := by
  unfold addLabel
  cases kind <;> cases other <;> first | exact absurd rfl h | (dsimp only; split_ifs <;> rfl)

theorem Links.link_idents (links : Links) (mark : Annotation) :
    (links.link kind mark).requirements.map (·.ident) =
      links.requirements.map (·.ident) := by
  unfold link
  split_ifs
  · rw [List.map_map]
    refine List.map_congr_left fun requirement _ => ?_
    simp only [Function.comp_apply]
    split_ifs
    · exact requirement.addLabel_ident mark.label
    · rfl
  · rfl

theorem Links.linkAll_idents (links : Links) (kind : AnnotationKind)
    (annotations : List Annotation) :
    (links.linkAll kind annotations).requirements.map (·.ident) =
      links.requirements.map (·.ident) := by
  induction annotations generalizing links with
  | nil => rfl
  | cons mark annotations ih => exact (ih _).trans (links.link_idents mark)

/-- Without a problem every annotation names a requirement. -/
theorem Links.linkAll_problems (links : Links) {annotations : List Annotation}
    (h : (links.linkAll kind annotations).problems = []) :
    links.problems = [] ∧
      ∀ mark ∈ annotations, mark.ident ∈ links.requirements.map (·.ident) := by
  induction annotations generalizing links with
  | nil => exact ⟨h, fun _ hmem => absurd hmem List.not_mem_nil⟩
  | cons mark annotations ih =>
    obtain ⟨hproblems, hrest⟩ := ih (links.link kind mark) h
    rw [links.link_idents] at hrest
    unfold link at hproblems
    split_ifs at hproblems with hknown
    · refine ⟨hproblems, fun named hnamed => ?_⟩
      rcases List.mem_cons.mp hnamed with rfl | hlater
      · simpa using hknown
      · exact hrest named hlater
    · exact absurd hproblems (by simp)

/-- A label comes from an annotation of its kind that names the requirement. -/
theorem Links.link_labels {links : Links} {mark : Annotation} {requirement : Requirement}
    (h : requirement ∈ (links.link kind mark).requirements)
    (hlabels : requirement.labels other ≠ []) :
    (other = kind ∧ mark.ident = requirement.ident) ∨
      ∃ before ∈ links.requirements,
        before.ident = requirement.ident ∧ before.labels other ≠ [] := by
  unfold link at h
  split_ifs at h
  · obtain ⟨before, hbefore, rfl⟩ := List.mem_map.mp h
    split_ifs at hlabels ⊢ with hident
    · by_cases hkind : other = kind
      · exact Or.inl ⟨hkind, by rw [before.addLabel_ident, hident]⟩
      · rw [before.labels_addLabel _ hkind] at hlabels
        exact Or.inr ⟨before, hbefore, (before.addLabel_ident _).symm, hlabels⟩
    · exact Or.inr ⟨before, hbefore, rfl, hlabels⟩
  · exact Or.inr ⟨requirement, h, rfl, hlabels⟩

theorem Links.linkAll_labels (links : Links) {annotations : List Annotation}
    {requirement : Requirement} (h : requirement ∈ (links.linkAll kind annotations).requirements)
    (hlabels : requirement.labels other ≠ []) :
    (other = kind ∧ ∃ mark ∈ annotations, mark.ident = requirement.ident) ∨
      ∃ before ∈ links.requirements,
        before.ident = requirement.ident ∧ before.labels other ≠ [] := by
  induction annotations generalizing links with
  | nil => exact Or.inr ⟨requirement, h, rfl, hlabels⟩
  | cons mark annotations ih =>
    rcases ih (links.link kind mark) h with
      ⟨hkind, named, hnamed, hident⟩ | ⟨between, hbetween, hident, hbetweenLabels⟩
    · exact Or.inl ⟨hkind, named, List.mem_cons_of_mem mark hnamed, hident⟩
    · rcases link_labels hbetween hbetweenLabels with
        ⟨hkind, hnamed⟩ | ⟨before, hbefore, hsame, hbeforeLabels⟩
      · exact Or.inl ⟨hkind, mark, List.mem_cons_self, hnamed.trans hident⟩
      · exact Or.inr ⟨before, hbefore, hsame.trans hident, hbeforeLabels⟩

theorem Requirement.labels_ne_nil {requirement : Requirement} (h : requirement.problems = [])
    (kind : AnnotationKind) : requirement.labels kind ≠ [] := by
  intro hempty
  cases kind with
  | satisfies => simp [problems, show requirement.satisfiedBy = [] from hempty] at h
  | verifies => simp [problems, show requirement.verifiedBy = [] from hempty] at h

end Links

section Gate
variable {classes : CharacterClasses} {repository : Repository}

/-- Without problems the links of each kind and the requirements cover each other. -/
theorem buildMatrix_ok {requirements : List Requirement} {links : Links}
    (h : buildMatrix classes repository requirements = .ok links)
    (hunlinked : ∀ requirement ∈ requirements,
      requirement.satisfiedBy = [] ∧ requirement.verifiedBy = [])
    (hproblems : links.problems = []) (ident : Text) :
    (ident ∈ requirements.map (·.ident) ↔
      (.satisfies, ident) ∈ annotated classes repository implementationDirs) ∧
    (ident ∈ requirements.map (·.ident) ↔
      (.verifies, ident) ∈ annotated classes repository verificationDirs) := by
  obtain ⟨satisfying, hsatisfying, h⟩ := exists_ok_of_bind h
  obtain ⟨verifying, hverifying, h⟩ := exists_ok_of_bind h
  obtain rfl := Except.ok.inj h
  obtain ⟨hlinked, hcomplete⟩ := List.append_eq_nil_iff.mp hproblems
  obtain ⟨himplemented, hverified⟩ := Links.linkAll_problems _ hlinked
  obtain ⟨-, hsatisfied⟩ := Links.linkAll_problems _ himplemented
  rw [Links.linkAll_idents] at hverified
  have hnone (kind : AnnotationKind) (before : Requirement) (hbefore : before ∈ requirements) :
      before.labels kind = [] := by
    cases kind with
    | satisfies => exact (hunlinked before hbefore).1
    | verifies => exact (hunlinked before hbefore).2
  have hfinal : ident ∈ requirements.map (·.ident) → ∃ requirement ∈
      ((Links.linkAll { requirements } .satisfies satisfying).linkAll .verifies
        verifying).requirements,
      requirement.ident = ident ∧ ∀ kind, requirement.labels kind ≠ [] := by
    intro hident
    rw [← Links.linkAll_idents { requirements } .satisfies satisfying,
      ← Links.linkAll_idents _ .verifies verifying] at hident
    obtain ⟨requirement, hmem, hsame⟩ := List.mem_map.mp hident
    exact ⟨requirement, hmem, hsame,
      Requirement.labels_ne_nil (List.flatMap_eq_nil_iff.mp hcomplete requirement hmem)⟩
  constructor
  · rw [← collectAnnotations_idents hsatisfying]
    refine ⟨fun hident => ?_, fun ⟨mark, hmem, hnamed⟩ => hnamed ▸ hsatisfied mark hmem⟩
    obtain ⟨requirement, hmem, rfl, hlabels⟩ := hfinal hident
    rcases Links.linkAll_labels _ hmem (hlabels .satisfies) with
      ⟨hkind, -⟩ | ⟨between, hbetween, hsame, hbetweenLabels⟩
    · exact nomatch hkind
    · rcases Links.linkAll_labels _ hbetween hbetweenLabels with
        ⟨-, mark, hannotation, hnamed⟩ | ⟨before, hbefore, -, hbeforeLabels⟩
      · exact ⟨mark, hannotation, hnamed.trans hsame⟩
      · exact absurd (hnone .satisfies before hbefore) hbeforeLabels
  · rw [← collectAnnotations_idents hverifying]
    refine ⟨fun hident => ?_, fun ⟨mark, hmem, hnamed⟩ => hnamed ▸ hverified mark hmem⟩
    obtain ⟨requirement, hmem, rfl, hlabels⟩ := hfinal hident
    rcases Links.linkAll_labels _ hmem (hlabels .verifies) with
      ⟨-, hnamed⟩ | ⟨between, hbetween, hsame, hbetweenLabels⟩
    · exact hnamed
    · rcases Links.linkAll_labels _ hbetween hbetweenLabels with
        ⟨hkind, -⟩ | ⟨before, hbefore, -, hbeforeLabels⟩
      · exact nomatch hkind
      · exact absurd (hnone .verifies before hbefore) hbeforeLabels

theorem fmeaProblems_eq_nil {known : List Text} {number : ℕ} {line : Text} :
    fmeaProblems known number line = [] ↔ ∀ ident ∈ findAll matchReference line, ident ∈ known := by
  simp [fmeaProblems, List.filterMap_eq_nil_iff]

/-- An FMEA without problems exists and refers to known requirements only. -/
theorem checkFmeaReferences_ok {requirements : List Requirement}
    (h : checkFmeaReferences repository requirements = .ok []) :
    ∃ node, repository.fileAt fmeaFile = some node ∧ ∀ line ∈ node.lines,
      ∀ ident ∈ findAll matchReference line, ident ∈ requirements.map (·.ident) := by
  unfold checkFmeaReferences at h
  cases hfile : repository.fileAt fmeaFile with
  | none =>
    rw [hfile] at h
    exact absurd (Except.ok.inj h) (by simp)
  | some node =>
    rw [hfile] at h
    obtain ⟨text, htext, h⟩ := exists_ok_of_bind h
    have hnone := List.flatMap_eq_nil_iff.mp (Except.ok.inj h)
    refine ⟨node, rfl, fun line hline => ?_⟩
    rw [Node.lines_of_readText htext, ← List.zipIdx_map_fst 0 (splitlines text)] at hline
    obtain ⟨indexed, hindexed, rfl⟩ := List.mem_map.mp hline
    exact fmeaProblems_eq_nil.mp (hnone indexed hindexed)

/-- What the check has found when it returns zero. -/
theorem main_check_ok (h : main classes repository true = .ok { status := 0 }) :
    ∃ requirements links node text, parseRequirements classes repository = .ok requirements ∧
      buildMatrix classes repository requirements = .ok links ∧ links.problems = [] ∧
      checkFmeaReferences repository requirements = .ok [] ∧
      repository.fileAt matrixFile = some node ∧ node.readText = .ok text ∧
      text = rendered links.requirements := by
  obtain ⟨requirements, hrequirements, h⟩ := exists_ok_of_bind h
  obtain ⟨links, hlinks, h⟩ := exists_ok_of_bind h
  obtain ⟨fmea, hfmea, h⟩ := exists_ok_of_bind h
  split_ifs at h with hproblems hcheck
  · exact absurd (congrArg Outcome.status (Except.ok.inj h)) one_ne_zero
  · obtain ⟨hnone, rfl⟩ := List.append_eq_nil_iff.mp (not_not.mp hproblems)
    cases hfile : repository.fileAt matrixFile with
    | none =>
      rw [hfile] at h
      exact absurd (congrArg Outcome.status (Except.ok.inj h)) one_ne_zero
    | some node =>
      rw [hfile] at h
      obtain ⟨text, htext, h⟩ := exists_ok_of_bind h
      refine ⟨requirements, links, node, text, hrequirements, hlinks, hnone, hfmea, rfl, htext, ?_⟩
      by_contra hstale
      simp [hstale] at h
  · exact absurd rfl hcheck

theorem generatedMatrix_of_ok {requirements : List Requirement} {links : Links}
    (hrequirements : parseRequirements classes repository = .ok requirements)
    (hlinks : buildMatrix classes repository requirements = .ok links) :
    generatedMatrix classes repository = .ok (rendered links.requirements) := by
  simp only [generatedMatrix, hrequirements, bind, Except.bind, hlinks]

/-- An annotation that stands where only the other kind is looked for. -/
def Misplaced (classes : CharacterClasses) (repository : Repository) (ident : Text) : Prop :=
  (.verifies, ident) ∈ annotated classes repository implementationDirs ∨
    (.satisfies, ident) ∈ annotated classes repository verificationDirs

/-- A check that returns zero has traced the repository, exactly if its misplaced annotations name
requirements too. -/
theorem traced_iff (h : main classes repository true = .ok { status := 0 }) :
    Traced classes repository ↔
      ∀ ident, Misplaced classes repository ident → ident ∈ declared classes repository := by
  obtain ⟨requirements, links, node, text, hrequirements, hlinks, hproblems, hfmea, hfile, htext,
    hcurrent⟩ := main_check_ok h
  obtain ⟨hdeclared, hunlinked⟩ := parseRequirements_ok hrequirements
  have hcovered := buildMatrix_ok hlinks hunlinked hproblems
  simp only [hdeclared] at hcovered
  constructor
  · rintro htraced ident (hplaced | hplaced)
    · exact htraced.resolved _ (List.mem_append_left _ hplaced)
    · exact htraced.resolved _ (List.mem_append_right _ hplaced)
  · intro hmisplaced
    exact {
      satisfied := fun ident hident => (hcovered ident).1.mp hident
      verified := fun ident hident => (hcovered ident).2.mp hident
      resolved := by
        rintro ⟨kind, ident⟩ hmem
        cases kind with
        | satisfies =>
          rcases List.mem_append.mp hmem with hplaced | hplaced
          · exact (hcovered ident).1.mpr hplaced
          · exact hmisplaced ident (Or.inr hplaced)
        | verifies =>
          rcases List.mem_append.mp hmem with hplaced | hplaced
          · exact hmisplaced ident (Or.inl hplaced)
          · exact (hcovered ident).2.mpr hplaced
      fmea := hdeclared ▸ checkFmeaReferences_ok hfmea
      current :=
        ⟨node, text, hfile, htext,
          (generatedMatrix_of_ok hrequirements hlinks).trans (by rw [hcurrent])⟩ }

end Gate

def asciiClasses : CharacterClasses where
  isSpace := (· ∈ [' ', '\t', '\n', '\r', '\x0b', '\x0c'])
  isDigit := Char.isDigit
  isWord := fun c => c.isAlphanum || c == '_'

/-- One requirement, one header and one test. -/
def smallRepository (header matrix : Text) : Repository :=
  [⟨requirementsFile, .file "### REQ-A-1 - T\n**Statement:** S".toList⟩,
    ⟨fmeaFile, .file "REQ-A-1".toList⟩,
    ⟨matrixFile, .file matrix⟩,
    ⟨["include".toList], .directory⟩,
    ⟨["include".toList, "a.hpp".toList], .file header⟩,
    ⟨["tests".toList], .directory⟩,
    ⟨["tests".toList, "t.cpp".toList], .file "// @verifies REQ-A-1".toList⟩]

/-- A repository whose matrix has been generated. -/
def currentRepository (header : Text) : Repository :=
  match generatedMatrix asciiClasses (smallRepository header []) with
  | .ok matrix => smallRepository header matrix
  | .error _ => []

/-- A header that satisfies the requirement and claims to verify one. -/
def claimingHeader (verified : String) : Text :=
  "// @satisfies REQ-A-1 @verifies ".toList ++ verified.toList

/-- The check passes whatever the header claims to verify. -/
theorem main_currentRepository : ∀ verified ∈ ["REQ-A-1", "REQ-A-2"],
    main asciiClasses (currentRepository (claimingHeader verified)) true = .ok { status := 0 } := by
  decide +kernel

/-- A misplaced annotation of the one requirement does no harm, one of another requirement does. -/
theorem traced_iff_claimed :
    Traced asciiClasses (currentRepository (claimingHeader "REQ-A-1")) ∧
      ¬ Traced asciiClasses (currentRepository (claimingHeader "REQ-A-2")) := by
  constructor
  · have himplementation : ∀ annotation ∈ annotated asciiClasses
        (currentRepository (claimingHeader "REQ-A-1")) implementationDirs, annotation.2 ∈
          declared asciiClasses (currentRepository (claimingHeader "REQ-A-1")) := by decide +kernel
    have hverification : ∀ annotation ∈ annotated asciiClasses
        (currentRepository (claimingHeader "REQ-A-1")) verificationDirs, annotation.2 ∈
          declared asciiClasses (currentRepository (claimingHeader "REQ-A-1")) := by decide +kernel
    refine (traced_iff (main_currentRepository _ List.mem_cons_self)).mpr ?_
    rintro ident (hplaced | hplaced)
    · exact himplementation _ hplaced
    · exact hverification _ hplaced
  · have hplaced : (.verifies, "REQ-A-2".toList) ∈ annotated asciiClasses
        (currentRepository (claimingHeader "REQ-A-2")) implementationDirs := by decide +kernel
    have hunknown : "REQ-A-2".toList ∉
        declared asciiClasses (currentRepository (claimingHeader "REQ-A-2")) := by decide +kernel
    rw [traced_iff (main_currentRepository _ (List.mem_cons_of_mem _ List.mem_cons_self))]
    exact fun hall => hunknown (hall _ (.inl hplaced))

/-- The check passes although a header names a requirement that does not exist, for it names it as
one it verifies. -/
theorem broken_link_passes :
    let repository := currentRepository (claimingHeader "REQ-A-2")
    main asciiClasses repository true = .ok { status := 0 } ∧
      (.verifies, "REQ-A-2".toList) ∈ annotated asciiClasses repository implementationDirs ∧
      "REQ-A-2".toList ∉ declared asciiClasses repository ∧ ¬ Traced asciiClasses repository := by
  intro repository
  have hplaced : (.verifies, "REQ-A-2".toList) ∈
      annotated asciiClasses repository implementationDirs := by decide +kernel
  have hunknown : "REQ-A-2".toList ∉ declared asciiClasses repository := by decide +kernel
  refine ⟨main_currentRepository _ (List.mem_cons_of_mem _ List.mem_cons_self), hplaced, hunknown,
    fun htraced => hunknown ?_⟩
  exact htraced.resolved _ (List.mem_append_left _ hplaced)

end SafeEdge.Scripts
