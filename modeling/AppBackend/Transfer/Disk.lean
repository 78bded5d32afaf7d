import AppBackend.Text.Cut

/-!
# Local files

The files and folders that transfers read and write, by path below one folder. One path stands
apart: the full device can be opened, but takes no octets. Main statement: `read?_write?`, what was
written at a path is read there.
-/

namespace AppBackend

inductive Disk.Node where
  | file (content : Bytes)
  | folder
deriving DecidableEq

/-- The length that the file system tells of a folder. -/
def Disk.folderLength : Nat := 4096

/-- Files and folders by the names on the way to them; the folder that holds all is always there. -/
structure Disk where
  nodes : List (List String × Disk.Node) := []
  /-- The octets that a file can take while it is downloaded; none for no limit. -/
  room : Option Nat := none
deriving DecidableEq, Inhabited

namespace Disk

def fullDevice : String := "/dev/full"

/-! ### Places -/

def nodeAt? (d : Disk) (place : List String) : Option Node :=
  if place = [] then some .folder else (d.nodes.find? fun n => n.1 == place).map (·.2)

def put (d : Disk) (place : List String) (n : Node) : Disk :=
  { d with nodes := (place, n) :: d.nodes.filter fun m => m.1 != place }

theorem nodeAt?_put (d : Disk) {place : List String} (n : Node) (hp : place ≠ [])
    (other : List String) :
    (d.put place n).nodeAt? other = if place = other then some n else d.nodeAt? other := by
  by_cases ho : other = []
  · simp [nodeAt?, ho, hp]
  · by_cases h : place = other
    · subst h
      simp [nodeAt?, put, hp]
    · have hf : (d.nodes.filter fun m => m.1 != place).find? (fun n => n.1 == other)
          = d.nodes.find? fun n => n.1 == other := by
        rw [List.find?_filter]
        congr 1
        funext m
        by_cases hm : m.1 = other <;> simp [hm, Ne.symm h]
      have hb : (place == other) = false := by simp [h]
      simp [nodeAt?, put, ho, h, hb, hf]

/-! ### Paths -/

/-- The steps of a path, less those that stay where they are. -/
def steps (path : String) : List (List Char) :=
  (Text.split '/' path.toList).filter fun s => s != [] && s != ['.']

def isUp (step : List Char) : Bool := step == ['.', '.']

def after (place : List String) (step : List Char) : List String :=
  if isUp step then place.dropLast else place ++ [String.ofList step]

/-- Where steps lead from a place. Steps are taken from folders only; what they lead to need not be
there. -/
def walk? (d : Disk) : List String → List (List Char) → Option (List String)
  | place, [] => some place
  | place, step :: rest =>
    if d.nodeAt? place = some .folder then d.walk? (after place step) rest else none

def locate? (d : Disk) (path : String) : Option (List String) :=
  if path = "" then none else d.walk? [] (steps path)

/-- Whether a path by its ending can only be a folder. -/
def endsAsFolder (path : String) : Bool :=
  match (Text.split '/' path.toList).getLast? with
  | some last => last == [] || last == ['.'] || isUp last
  | none => true

/-- What paths are compared by: whether they begin at the root or with a step that stays where it
is, and their steps. A slash that is doubled or at the end does not count. -/
structure Parts where
  rooted : Bool
  dotted : Bool
  steps : List (List Char)
deriving DecidableEq

def partsOf (path : String) : Parts where
  rooted := path.toList.head? == some '/'
  dotted := (Text.split '/' path.toList).head? == some ['.']
  steps := steps path

/-- Only the empty path has no parts. -/
theorem eq_empty_of_partsOf {path : String} (h : partsOf path = partsOf "") : path = "" := by
  have hrooted : (path.toList.head? == some '/') = false := congrArg Parts.rooted h
  have hdotted : ((Text.split '/' path.toList).head? == some ['.']) = false :=
    congrArg Parts.dotted h
  have hsteps : steps path = [] := congrArg Parts.steps h
  rw [steps, List.filter_eq_nil_iff] at hsteps
  cases hpath : path.toList with
  | nil => exact String.toList_eq_nil_iff.1 hpath
  | cons c cs =>
    -- the first piece is neither empty nor a dot, so it is a step
    have hc : c ≠ '/' := by simpa [hpath] using hrooted
    obtain ⟨piece, pieces, hsplit⟩ : ∃ piece pieces,
        Text.split '/' path.toList = (c :: piece) :: pieces := by
      obtain ⟨piece, pieces, hrest⟩ := List.exists_cons_of_ne_nil (Text.split_ne_nil '/' cs)
      exact ⟨piece, pieces, by rw [hpath, Text.split, if_neg hc, hrest]⟩
    rw [hsplit] at hsteps hdotted
    have hdot : c :: piece ≠ ['.'] := by simpa using hdotted
    exact absurd (by simp [hdot]) (hsteps (c :: piece) (List.mem_cons_self ..))

theorem locate?_of_partsOf {p q : String} (h : partsOf p = partsOf q) (d : Disk) :
    d.locate? p = d.locate? q := by
  have hsteps : steps p = steps q := congrArg Parts.steps h
  have hempty : p = "" ↔ q = "" := by
    constructor
    · rintro rfl
      exact eq_empty_of_partsOf h.symm
    · rintro rfl
      exact eq_empty_of_partsOf h
  simp only [locate?, hempty, hsteps]

example : partsOf "a//b/" = partsOf "a/./b" ∧ partsOf "./a" ≠ partsOf "a" := by decide +kernel

theorem walk?_congr {d d' : Disk}
    (h : ∀ place, d'.nodeAt? place = some .folder ↔ d.nodeAt? place = some .folder)
    (place : List String) (ss : List (List Char)) : d'.walk? place ss = d.walk? place ss := by
  induction ss generalizing place with
  | nil => rfl
  | cons s ss ih => simp only [walk?, h, ih]

/-! ### Reading and writing -/

def node? (d : Disk) (path : String) : Option Node :=
  match (d.locate? path).bind d.nodeAt? with
  | some (.file content) => if endsAsFolder path then none else some (.file content)
  | other => other

def read? (d : Disk) (path : String) : Option Bytes :=
  match d.node? path with
  | some (.file content) => some content
  | _ => none

/-- Where a file may be made or overwritten: in a folder that is there, and not where a folder is. -/
def target? (d : Disk) (path : String) : Option (List String) :=
  (d.locate? path).filter fun place =>
    !endsAsFolder path && place != [] && d.nodeAt? place != some .folder

def write? (d : Disk) (path : String) (content : Bytes) : Option Disk :=
  (d.target? path).map fun place => d.put place (.file content)

def makeFolder (d : Disk) (path : String) : Disk :=
  ((steps path).foldl (fun (d, place) step =>
    let place := after place step
    (if (d.nodeAt? place).isSome then d else d.put place .folder, place)) (d, [])).1

/-- The files directly in a folder, if it is one. -/
def filesIn? (d : Disk) (path : String) : Option (List Bytes) :=
  match d.locate? path with
  | none => none
  | some place =>
    if d.nodeAt? place = some .folder then
      some (d.nodes.filterMap fun n =>
        match n.2 with
        | .file content => if n.1.dropLast = place ∧ n.1 ≠ [] then some content else none
        | .folder => none)
    else none

theorem filesIn?_of_partsOf {p q : String} (h : partsOf p = partsOf q) (d : Disk) :
    d.filesIn? p = d.filesIn? q := by
  simp only [filesIn?, locate?_of_partsOf h]

theorem endsAsFolder_of_read? {d : Disk} {path : String} {content : Bytes}
    (h : d.read? path = some content) : endsAsFolder path = false := by
  simp only [read?, node?] at h
  grind

/-- What is read at a path is read at each other with the same parts that can be that of a file. -/
theorem read?_of_partsOf {p q : String} (h : partsOf p = partsOf q) (hq : endsAsFolder q = false)
    {d : Disk} {content : Bytes} (hp : d.read? p = some content) : d.read? q = some content := by
  have hends := endsAsFolder_of_read? hp
  rw [← hp]
  simp only [read?, node?, locate?_of_partsOf h, hq, hends]

/-- Where paths of the same parts can both be read, they read the same. -/
theorem eq_of_read?_of_partsOf {p q : String} (h : partsOf p = partsOf q) {d : Disk}
    {content other : Bytes} (hp : d.read? p = some content) (hq : d.read? q = some other) :
    content = other := by
  have hread := read?_of_partsOf h (endsAsFolder_of_read? hq) hp
  exact Option.some.inj (hread.symm.trans hq)

/-- Writing a file leaves all folders where they are. -/
theorem nodeAt?_folder_of_write? {d d' : Disk} {path : String} {content : Bytes}
    (h : d.write? path content = some d') (place : List String) :
    d'.nodeAt? place = some .folder ↔ d.nodeAt? place = some .folder := by
  obtain ⟨target, ht, rfl⟩ := Option.map_eq_some_iff.1 h
  obtain ⟨_, hg⟩ := Option.filter_eq_some_iff.1 ht
  simp only [Bool.and_eq_true, bne_iff_ne, ne_eq] at hg
  rw [nodeAt?_put d _ hg.1.2]
  by_cases he : target = place
  · subst he
    simp [hg.2]
  · simp [he]

theorem locate?_of_write? {d d' : Disk} {path : String} {content : Bytes}
    (h : d.write? path content = some d') (other : String) : d'.locate? other = d.locate? other := by
  simp only [locate?, walk?_congr (nodeAt?_folder_of_write? h)]

theorem read?_write? {d d' : Disk} {path : String} {content : Bytes}
    (h : d.write? path content = some d') : d'.read? path = some content := by
  have hl := locate?_of_write? h path
  obtain ⟨target, ht, rfl⟩ := Option.map_eq_some_iff.1 h
  obtain ⟨hloc, hg⟩ := Option.filter_eq_some_iff.1 ht
  simp only [Bool.and_eq_true, Bool.not_eq_true', bne_iff_ne, ne_eq] at hg
  simp [read?, node?, hl, hloc, nodeAt?_put d _ hg.1.2, hg.1.1]

/-- Where a file was written, another can be written. -/
theorem isSome_write?_of_write? {d d' : Disk} {path : String} {content : Bytes}
    (h : d.write? path content = some d') (other : Bytes) : (d'.write? path other).isSome = true := by
  have hl := locate?_of_write? h path
  have hf := nodeAt?_folder_of_write? h
  obtain ⟨target, ht, _⟩ := Option.map_eq_some_iff.1 h
  obtain ⟨hloc, hg⟩ := Option.filter_eq_some_iff.1 ht
  simp only [write?, target?, Option.isSome_map, hl, hloc]
  simp_all [Option.filter]

end Disk
end AppBackend
