import Cyclomatic.Proofs.Views
import Cyclomatic.Report.CodeMap
import Mathlib.Algebra.GroupWithZero.Nat

/-!
# Code maps hold every file once

A code map is built by inserting file after file.  Each insertion follows the folders of a path,
makes those that are missing, and appends the file to the last.  So it adds one file to the files of
the map (`MapNode.leavesOf_insertAt`) and keeps the folders tidy: none is empty, and no two of one
folder have the same name (`MapNode.TidyChildren.insertAt`).  A file with the name of a folder is no
folder and is passed over.

The path of a file is cut at its slashes, and the pieces that are not empty are its parts
(`MapNode.components_iff`).  Hence the files of a map are those of the results, at the parts of
their paths and with their metrics (`codeMap_leaves`).
-/

namespace Cyclomatic

/-! ## Cutting a text -/

namespace Text

/-- The pieces of a list of characters are those of the library. -/
theorem pieces_eq (p : Char → Bool) (cs : List Char) : pieces p cs = cs.splitOnP p := by
  induction cs with
  | nil => simp [pieces]
  | cons c cs ih =>
    rw [pieces, ih, List.splitOnP_cons_eq_if_modifyHead]
    split
    · rfl
    · cases h : cs.splitOnP p with
      | nil => exact absurd h (List.splitOnP_ne_nil p cs)
      | cons piece rest => rfl

/-- No piece holds a character at which the text is cut. -/
theorem not_of_mem_pieces {p : Char → Bool} {cs : List Char} :
    ∀ piece ∈ pieces p cs, ∀ c ∈ piece, p c ≠ true := by
  induction cs with
  | nil => simp [pieces]
  | cons c cs ih =>
    rw [pieces]
    split
    · exact List.forall_mem_cons.mpr ⟨nofun, ih⟩
    · rename_i hc
      cases h : pieces p cs with
      | nil => simpa using hc
      | cons piece rest =>
        rw [h] at ih
        obtain ⟨hpiece, hrest⟩ := List.forall_mem_cons.mp ih
        exact List.forall_mem_cons.mpr ⟨List.forall_mem_cons.mpr ⟨hc, hpiece⟩, hrest⟩

/-- Cutting at a character undoes joining by it. -/
theorem splitAt_eq_iff {sep : Char} {s : String} {parts : List String} :
    splitAt sep s = parts ↔
      parts ≠ [] ∧ (∀ part ∈ parts, sep ∉ part.toList) ∧
        String.intercalate (String.singleton sep) parts = s := by
  have hsplit : splitAt sep s = (s.toList.splitOn sep).map String.ofList := by
    rw [splitAt, pieces_eq, List.splitOn]
  constructor
  · rintro rfl
    refine ⟨?_, fun part hpart hsep => ?_, ?_⟩
    · rw [hsplit]
      exact List.map_eq_nil_iff.not.mpr (List.splitOn_ne_nil sep s.toList)
    · obtain ⟨piece, hpiece, rfl⟩ := List.mem_map.mp hpart
      rw [String.toList_ofList] at hsep
      exact not_of_mem_pieces piece hpiece sep hsep (beq_self_eq_true sep)
    · rw [← String.toList_inj, String.toList_intercalate, hsplit]
      simp [List.map_map, Function.comp_def, List.intercalate_splitOn]
  · rintro ⟨hne, hsep, rfl⟩
    rw [hsplit, String.toList_intercalate, String.toList_singleton, List.splitOn_intercalate]
    · simp
    · simpa using hsep
    · simpa using hne

end Text

/-! ## Files of a map -/

/-- A file in a map, with the names of the folders around it, outermost first. -/
structure MapLeaf where
  /-- The folders. -/
  folders : List String
  /-- The name of the file. -/
  name : String
  /-- Its metrics. -/
  metrics : Metrics
deriving DecidableEq, Repr

namespace MapNode

mutual

/-- The files of a node below some folders. -/
def leaves (around : List String) : MapNode → List MapLeaf
  | .file name metrics => [⟨around, name, metrics⟩]
  | .folder name children => leavesOf (around ++ [name]) children

/-- The files of several nodes below some folders. -/
def leavesOf (around : List String) : List MapNode → List MapLeaf
  | [] => []
  | node :: rest => leaves around node ++ leavesOf around rest

end

/-- The name of a folder. -/
def folderName? : MapNode → Option String
  | .file _ _ => none
  | .folder name _ => some name

/-- The names of the folders among some nodes. -/
def folderNames (nodes : List MapNode) : List String := nodes.filterMap folderName?

/-- No folder in the node is empty or has two folders of the same name. -/
inductive Tidy : MapNode → Prop where
  | file (name : String) (metrics : Metrics) : Tidy (.file name metrics)
  | folder {name : String} {children : List MapNode} : children ≠ [] →
      (folderNames children).Nodup → (∀ node ∈ children, Tidy node) → Tidy (.folder name children)

/-- The children of a folder are tidy, and no two folders among them have the same name. -/
structure TidyChildren (children : List MapNode) : Prop where
  /-- Folders have distinct names. -/
  names : (folderNames children).Nodup
  /-- Each child is tidy. -/
  nodes : ∀ node ∈ children, node.Tidy

variable {around path : List String} {name : String} {change : List MapNode → List MapNode}
  {children : List MapNode}

theorem leavesOf_append (around : List String) (xs ys : List MapNode) :
    leavesOf around (xs ++ ys) = leavesOf around xs ++ leavesOf around ys := by
  induction xs with
  | nil => rfl
  | cons x xs ih => rw [List.cons_append, leavesOf, leavesOf, ih, List.append_assoc]

/-- What a change adds to the files of one folder, it adds to the files around the folder. -/
theorem leavesOf_updateFolder {new : List MapLeaf}
    (h : ∀ children, (leavesOf (around ++ [name]) (change children)).Perm
      (leavesOf (around ++ [name]) children ++ new)) (children : List MapNode) :
    (leavesOf around (updateFolder name change children)).Perm
      (leavesOf around children ++ new) := by
  induction children with
  | nil => simpa [updateFolder, leavesOf, leaves] using h []
  | cons node rest ih =>
    cases node with
    | file n metrics =>
      rw [updateFolder, leavesOf, leavesOf, List.append_assoc]
      · exact ih.append_left _
      · exact nofun
    | folder n inner =>
      rw [updateFolder]
      split
      · rename_i hname
        obtain rfl := beq_iff_eq.mp hname
        rw [leavesOf, leavesOf, leaves, leaves, List.append_assoc]
        refine ((h inner).append_right _).trans ?_
        rw [List.append_assoc]
        exact List.perm_append_comm.append_left _
      · rw [leavesOf, leavesOf, List.append_assoc]
        exact ih.append_left _

/-- A file that is inserted is added to the files, under the folders of its path. -/
theorem leavesOf_insertAt (metrics : Metrics) (folders around : List String)
    (children : List MapNode) :
    (leavesOf around (insertAt (.file name metrics) folders children)).Perm
      (leavesOf around children ++ [⟨around ++ folders, name, metrics⟩]) := by
  induction folders generalizing around children with
  | nil =>
    rw [insertAt, leavesOf_append, List.append_nil]
    exact .refl _
  | cons folder folders ih =>
    rw [insertAt]
    refine leavesOf_updateFolder (fun children => ?_) children
    simpa using ih (around ++ [folder]) children

/-! ## Folders of a map -/

/-- Where a folder is changed, its name is among the names of the folders afterwards, and all other
names stay. -/
theorem folderNames_updateFolder (children : List MapNode) :
    folderNames (updateFolder name change children) =
      if name ∈ folderNames children then folderNames children
      else folderNames children ++ [name] := by
  induction children with
  | nil => rfl
  | cons node rest ih =>
    cases node with
    | file n metrics =>
      rw [updateFolder]
      · exact ih
      · exact nofun
    | folder n inner =>
      have hnames (inner : List MapNode) (rest : List MapNode) :
          folderNames (.folder n inner :: rest) = n :: folderNames rest := rfl
      rw [updateFolder]
      split
      · rename_i hname
        rw [hnames, hnames, if_pos]
        rw [beq_iff_eq.mp hname]
        exact List.mem_cons_self ..
      · rename_i hname
        have hne : name ≠ n := fun heq => hname (beq_iff_eq.mpr heq.symm)
        rw [hnames, hnames, ih]
        split
        · rename_i hmem
          rw [if_pos (List.mem_cons_of_mem _ hmem)]
        · rename_i hmem
          rw [if_neg (by simp [hne, hmem])]
          rfl

/-- A changed list of nodes holds the nodes from before and one folder with changed children. -/
theorem mem_updateFolder {node : MapNode} (h : node ∈ updateFolder name change children) :
    node ∈ children ∨ ∃ inner, (inner = [] ∨ .folder name inner ∈ children) ∧
      node = .folder name (change inner) := by
  induction children with
  | nil => exact .inr ⟨[], .inl rfl, List.mem_singleton.mp h⟩
  | cons first rest ih =>
    have hrest (hmem : node ∈ updateFolder name change rest) :
        node ∈ first :: rest ∨ ∃ inner, (inner = [] ∨ .folder name inner ∈ first :: rest) ∧
          node = .folder name (change inner) := by
      rcases ih hmem with hmem | ⟨inner, hinner, heq⟩
      · exact .inl (List.mem_cons_of_mem _ hmem)
      · exact .inr ⟨inner, hinner.imp_right (List.mem_cons_of_mem _), heq⟩
    cases first with
    | file n metrics =>
      rw [updateFolder] at h
      · rcases List.mem_cons.mp h with rfl | hmem
        · exact .inl (List.mem_cons_self ..)
        · exact hrest hmem
      · exact nofun
    | folder n inner =>
      rw [updateFolder] at h
      split at h
      · rename_i hname
        obtain rfl := beq_iff_eq.mp hname
        rcases List.mem_cons.mp h with rfl | hmem
        · exact .inr ⟨inner, .inr (List.mem_cons_self ..), rfl⟩
        · exact .inl (List.mem_cons_of_mem _ hmem)
      · rcases List.mem_cons.mp h with rfl | hmem
        · exact .inl (List.mem_cons_self ..)
        · exact hrest hmem

theorem insertAt_ne_nil (node : MapNode) (folders : List String) (children : List MapNode) :
    insertAt node folders children ≠ [] := by
  cases folders with
  | nil => simp [insertAt]
  | cons folder folders =>
    rw [insertAt]
    cases children with
    | nil => simp [updateFolder]
    | cons first rest =>
      cases first with
      | file n metrics => simp [updateFolder]
      | folder n inner =>
        rw [updateFolder]
        split
        · simp
        · simp

/-- Tidy nodes stay tidy when a file is inserted. -/
theorem TidyChildren.insertAt (metrics : Metrics) (folders : List String)
    (h : TidyChildren children) :
    TidyChildren (insertAt (.file name metrics) folders children) := by
  induction folders generalizing children with
  | nil =>
    rw [MapNode.insertAt]
    refine ⟨?_, fun node hnode => ?_⟩
    · have hnames : folderNames (children ++ [.file name metrics]) = folderNames children := by
        rw [folderNames, List.filterMap_append]
        exact List.append_nil _
      rw [hnames]
      exact h.names
    · rcases List.mem_append.mp hnode with hnode | hnode
      · exact h.nodes node hnode
      · rw [List.mem_singleton.mp hnode]
        exact .file name metrics
  | cons folder folders ih =>
    rw [MapNode.insertAt]
    refine ⟨?_, fun node hnode => ?_⟩
    · rw [folderNames_updateFolder]
      split
      · exact h.names
      · rename_i hmem
        rw [← List.concat_eq_append]
        exact h.names.concat hmem
    · rcases mem_updateFolder hnode with hnode | ⟨inner, hinner, rfl⟩
      · exact h.nodes node hnode
      · have htidy : TidyChildren inner := by
          rcases hinner with rfl | hinner
          · exact ⟨List.nodup_nil, nofun⟩
          · cases h.nodes _ hinner with
            | folder _ hnames hnodes => exact ⟨hnames, hnodes⟩
        exact .folder (insertAt_ne_nil _ _ _) (ih htidy).names (ih htidy).nodes

/-! ## Parts of a path -/

/-- Some texts are the parts of a path.  Its pieces hold no slash and make the path when they are
joined by slashes, and the parts are those of them that are not empty. -/
def Components (path : String) (parts : List String) : Prop :=
  ∃ pieces : List String, pieces ≠ [] ∧ (∀ piece ∈ pieces, '/' ∉ piece.toList) ∧
    String.intercalate "/" pieces = path ∧ pieces.filter (!·.isEmpty) = parts

theorem components_iff {path : String} {parts : List String} :
    Components path parts ↔ pathParts path = parts := by
  constructor
  · rintro ⟨pieces, hne, hslash, hjoin, rfl⟩
    rw [pathParts, Text.splitAt_eq_iff.mpr ⟨hne, hslash, hjoin⟩]
  · intro h
    obtain ⟨hne, hslash, hjoin⟩ := Text.splitAt_eq_iff.mp (Eq.refl (Text.splitAt '/' path))
    exact ⟨_, hne, hslash, hjoin, h⟩

/-! ## Maps of results -/

/-- The file of a result in a map: its name is the last part of the path, and the folders are the
parts before.  A path without parts has no file. -/
def leafOf? (r : FileResult) : Option MapLeaf :=
  (pathParts r.file).getLast?.map fun name => ⟨(pathParts r.file).dropLast, name, r.metrics⟩

/-- What file a result has in a map. -/
structure HasLeaf (r : FileResult) (leaf? : Option MapLeaf) : Prop where
  /-- Its folders and its name are the parts of the path, and it has the metrics of the result. -/
  some_iff : ∀ leaf, leaf? = some leaf ↔
    Components r.file (leaf.folders ++ [leaf.name]) ∧ leaf.metrics = r.metrics
  /-- There is none if the path has no parts. -/
  none_iff : leaf? = none ↔ Components r.file []

theorem hasLeaf_leafOf? (r : FileResult) : HasLeaf r (leafOf? r) := by
  rcases (pathParts r.file).eq_nil_or_concat with hnil | ⟨folders, name, hparts⟩
  · have hleaf : leafOf? r = none := by simp [leafOf?, hnil]
    constructor <;> simp [components_iff, hnil, hleaf]
  · have hleaf : leafOf? r = some ⟨folders, name, r.metrics⟩ := by simp [leafOf?, hparts]
    constructor
    · rintro ⟨folders', name', metrics⟩
      simp [components_iff, hparts, hleaf, and_assoc, eq_comm]
    · simp [components_iff, hparts, hleaf]

/-- Adding a file adds it to the files of the map and keeps the map tidy. -/
theorem addFile_cases (children : List MapNode) (r : FileResult) :
    leafOf? r = none ∧ addFile children r = children ∨
      ∃ folders name, leafOf? r = some ⟨folders, name, r.metrics⟩ ∧
        addFile children r = insertAt (.file name r.metrics) folders children := by
  rcases (pathParts r.file).eq_nil_or_concat with hnil | ⟨folders, name, hparts⟩
  · exact .inl ⟨by simp [leafOf?, hnil], by simp [addFile, hnil]⟩
  · exact .inr ⟨folders, name, by simp [leafOf?, hparts], by simp [addFile, hparts]⟩

theorem leavesOf_addFile (children : List MapNode) (r : FileResult) :
    (leavesOf [] (addFile children r)).Perm (leavesOf [] children ++ (leafOf? r).toList) := by
  rcases addFile_cases children r with ⟨hleaf, hadd⟩ | ⟨folders, name, hleaf, hadd⟩
  · rw [hleaf, hadd]
    simp
  · rw [hleaf, hadd]
    exact leavesOf_insertAt r.metrics folders [] children

theorem TidyChildren.addFile (h : TidyChildren children) (r : FileResult) :
    TidyChildren (addFile children r) := by
  rcases addFile_cases children r with ⟨-, hadd⟩ | ⟨folders, name, -, hadd⟩
  · rw [hadd]
    exact h
  · rw [hadd]
    exact h.insertAt r.metrics folders

/-- Adding files one after another adds each once. -/
theorem leavesOf_foldl_addFile (results : List FileResult) (children : List MapNode) :
    (leavesOf [] (results.foldl addFile children)).Perm
      (leavesOf [] children ++ results.filterMap leafOf?) := by
  induction results generalizing children with
  | nil => simp
  | cons r results ih =>
    rw [List.foldl_cons, List.filterMap_eq_flatMap_toList, List.flatMap_cons,
      ← List.filterMap_eq_flatMap_toList, ← List.append_assoc]
    exact (ih (MapNode.addFile children r)).trans ((leavesOf_addFile children r).append_right _)

theorem tidyChildren_foldl_addFile (results : List FileResult) (h : TidyChildren children) :
    TidyChildren (results.foldl MapNode.addFile children) := by
  induction results generalizing children with
  | nil => exact h
  | cons r results ih => exact ih (h.addFile r)

/-! ## Maps as data -/

/-- What the data of a file in a map says. -/
structure FileTells (name : String) (metrics : Metrics) (node : Json) : Prop where
  /-- Its name. -/
  name : node.member? "name" = some (.str name)
  /-- It is a file. -/
  type : node.member? "type" = some (.str "File")
  /-- The sum of all scores. -/
  complexity : (node.member? "attributes").bind (·.member? "complexity") =
    some (.nat metrics.complexity)
  /-- The number of functions. -/
  functions : (node.member? "attributes").bind (·.member? "functions") =
    some (.nat metrics.functions)
  /-- The highest score. -/
  maxComplexity : (node.member? "attributes").bind (·.member? "max_complexity") =
    some (.nat metrics.maxComplexity)
  /-- The lines that are not blank. -/
  realLines : (node.member? "attributes").bind (·.member? "rloc") = some (.nat metrics.realLines)
  /-- It has no children. -/
  children : node.member? "children" = some (.arr [])

theorem fileTells_json (name : String) (metrics : Metrics) :
    FileTells name metrics (MapNode.file name metrics).json := by
  constructor <;> rfl

end MapNode

/-- The code map of a batch holds every file once.  Its files, with the folders around them, are
those of the results whose paths have a part that is not empty, at these parts and with their
metrics: the sum of the scores and the number of functions among them.  No folder below the root is
empty, no folder has two folders of one name, and a file has no children. -/
theorem codeMap_leaves (project : String) (report : BatchReport) :
    (codeMapJson project report).member? "nodes" =
        some (.arr [(MapNode.folder "root" (MapNode.ofResults report.results)).json]) ∧
      (MapNode.leavesOf [] (MapNode.ofResults report.results)).Perm
        (report.results.filterMap MapNode.leafOf?) ∧
      (∀ r, MapNode.HasLeaf r (MapNode.leafOf? r)) ∧
      (∀ r : FileResult, r.metrics.complexity = (r.all.map (·.score.toNat)).sum ∧
        r.metrics.functions = r.total) ∧
      MapNode.TidyChildren (MapNode.ofResults report.results) ∧
      ∀ name metrics, MapNode.FileTells name metrics (MapNode.file name metrics).json := by
  refine ⟨rfl, ?_, MapNode.hasLeaf_leafOf?, fun r => ⟨?_, rfl⟩, ?_, MapNode.fileTells_json⟩
  · exact MapNode.leavesOf_foldl_addFile report.results []
  · exact List.sum_eq_foldl.symm
  · exact MapNode.tidyChildren_foldl_addFile report.results ⟨List.nodup_nil, nofun⟩

/-- A file beside a folder of its name, one path twice, and a path without parts. -/
example : (MapNode.leavesOf [] (MapNode.ofResults (["a/b", "a", "/a//b/", "//", "a/a/b"].map
      fun file => { (default : FileResult) with file }))).map
        (fun leaf => (leaf.folders, leaf.name)) =
    [(["a"], "b"), (["a"], "b"), (["a", "a"], "b"), ([], "a")] := by
  decide +kernel

end Cyclomatic
