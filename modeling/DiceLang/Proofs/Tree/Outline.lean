import DiceLang.Proofs.Text.Quoted
import DiceLang.Proofs.Tree.Node
import DiceLang.Tree.Outline
import Mathlib

/-!
# Outlines are faithful

From the outline of a tree the tree can be told, up to its spans.

The way back has three stages.  No row of an outline holds a newline or begins with a space, so the
text falls into its rows again and every row into its indentation and its own text
(`Tree.rows_of_outlineText`).  The rows of a node are its name and, for each field, rows that tell what
is in the field (`Tree.rows_eq`): a value that is quoted or spelt in some way that can be undone, a
node, or a block of nodes, which ends where the indentation falls back.  So the rows of a tree can be
told from what is behind them (`Tree.parted`), by induction over the tree, and `Tree.outline_faithful`
follows.
-/

namespace DiceLang

namespace Text

/-- The decimal form of an integer is its usual representation. -/
theorem decimal_eq_repr (n : Int) : decimal n = Int.repr n := by
  cases n <;> rfl

/-- Different integers have different decimal forms. -/
theorem decimal_inj {m n : Int} : decimal m = decimal n ↔ m = n := by
  rw [decimal_eq_repr, decimal_eq_repr, Int.repr_inj]

/-- A number is written in digits, on one line. -/
theorem newline_not_mem_repr (n : Nat) : '\n' ∉ (Nat.repr n).toList := by
  intro hmem
  rw [Nat.toList_repr] at hmem
  exact absurd (Nat.isDigit_of_mem_toDigits (by decide) (by decide) hmem) (by decide)

theorem newline_not_mem_decimal (n : Int) : '\n' ∉ (decimal n).toList := by
  cases n with
  | ofNat n => exact newline_not_mem_repr n
  | negSucc n =>
      rw [decimal, String.toList_append, List.mem_append]
      exact not_or.mpr ⟨by decide, newline_not_mem_repr _⟩

theorem newline_not_mem_quoted (text : String) : '\n' ∉ (quoted text).toList := by
  rw [quoted, String.toList_ofList]
  exact newline_not_mem_quotedChars _

end Text

/-- Different arithmetic operators have different labels. -/
theorem Arithmetic.label_inj {a b : Arithmetic} : a.label = b.label ↔ a = b := by
  cases a <;> cases b <;> decide

theorem Comparison.label_inj {a b : Comparison} : a.label = b.label ↔ a = b := by
  cases a <;> cases b <;> decide

theorem Shape.label_inj {a b : Shape} : a.label = b.label ↔ a = b := by
  cases a <;> cases b <;> decide

section Names

/-- A further name of a list. -/
def furtherName (name : String) : List Char := ',' :: ' ' :: Text.quotedChars name.toList

/-- The end of a list of names, which a single name is parted from by a comma. -/
def namesEnd (further : List String) : List Char :=
  if further = [] then [',', ')'] else [')']

/-- A list with separators is its first part, and the others with a separator before each. -/
theorem intercalate_cons_eq {α : Type} (sep first : List α) (others : List (List α)) :
    sep.intercalate (first :: others) = first ++ others.flatMap fun other => sep ++ other := by
  induction others generalizing first with
  | nil => simp
  | cons other others ih =>
      rw [List.intercalate_cons_cons, ih other, List.flatMap_cons]
      simp

/-- A list of names is a parenthesis, the first name, the further ones and the end. -/
theorem toList_nameList_cons (name : String) (further : List String) :
    (nameList (name :: further)).toList =
      '(' :: (Text.quotedChars name.toList ++ (further.flatMap furtherName ++ namesEnd further)) := by
  cases further with
  | nil => simp [nameList, Text.quoted, namesEnd]
  | cons second further =>
      have hsep : ", ".toList = [',', ' '] := rfl
      have hfurther : (((second :: further).map Text.quoted).map String.toList).flatMap
          ([',', ' '] ++ ·) = (second :: further).flatMap furtherName := by
        rw [List.flatMap_map, List.flatMap_map]
        refine List.flatMap_congr fun name _ => ?_
        rw [Text.quoted, String.toList_ofList]
        rfl
      show ("(" ++ ", ".intercalate ((name :: second :: further).map Text.quoted) ++ ")").toList = _
      rw [String.toList_append, String.toList_append, String.toList_intercalate, hsep, List.map_cons,
        List.map_cons, intercalate_cons_eq, hfurther, Text.quoted, String.toList_ofList]
      simp [namesEnd]

/-- Where a further name ends can be told from its quotation. -/
theorem furtherName_selfDelimiting : SelfDelimiting furtherName := by
  intro name name' behind behind' h
  have hquoted := List.tail_eq_of_cons_eq (List.tail_eq_of_cons_eq h)
  obtain ⟨hname, hbehind⟩ := Text.quotedChars_selfDelimiting _ _ _ _ hquoted
  exact ⟨String.toList_injective hname, hbehind⟩

/-- The end of a list of names is not taken for a further name. -/
theorem furtherName_append_ne (name : String) (rest : List Char) (further : List String) :
    furtherName name ++ rest ≠ namesEnd further := by
  unfold namesEnd
  split <;> simp [furtherName]

/-- A list with names is not taken for the empty one. -/
theorem nameList_cons_ne (name : String) (further : List String) :
    nameList (name :: further) ≠ nameList [] := by
  intro h
  have hchars := congrArg String.toList h
  rw [toList_nameList_cons] at hchars
  have hmark := List.head_eq_of_cons_eq (List.tail_eq_of_cons_eq hchars)
  rcases Text.isMark_quoteMark name.toList with hquote | hquote <;>
    exact absurd (hquote.symm.trans hmark) (by decide)

/-- Different lists of names are written differently. -/
theorem nameList_inj {a b : List String} : nameList a = nameList b ↔ a = b := by
  refine ⟨fun h => ?_, congrArg nameList⟩
  cases a with
  | nil =>
      cases b with
      | nil => rfl
      | cons name further => exact absurd h.symm (nameList_cons_ne name further)
  | cons name further =>
      cases b with
      | nil => exact absurd h (nameList_cons_ne name further)
      | cons name' further' =>
          have hchars := congrArg String.toList h
          rw [toList_nameList_cons, toList_nameList_cons] at hchars
          obtain ⟨hname, hrest⟩ := Text.quotedChars_selfDelimiting _ _ _ _
            (List.tail_eq_of_cons_eq hchars)
          obtain ⟨hfurther, -⟩ := furtherName_selfDelimiting.flatMap
            (fun name rest => furtherName_append_ne name rest further)
            (fun name rest => furtherName_append_ne name rest further') hrest
          rw [String.toList_injective hname, hfurther]

/-- A list of names stands on one line. -/
theorem newline_not_mem_nameList (names : List String) : '\n' ∉ (nameList names).toList := by
  cases names with
  | nil => decide
  | cons name further =>
      have hend : '\n' ∉ namesEnd further := by
        unfold namesEnd
        split <;> decide
      have hfurther : ∀ name, '\n' ∉ furtherName name := by
        intro name
        simp [furtherName, Text.newline_not_mem_quotedChars]
      simp [toList_nameList_cons, Text.newline_not_mem_quotedChars, hend, hfurther]

end Names

/-- What a field of a node holds. -/
inductive Entry
  /-- A text that fits on the row of the field. -/
  | value (text : String)
  | node (tree : Tree)
  | block (trees : List Tree)

namespace Entry

/-- The trees in a field. -/
def trees : Entry → List Tree
  | value _ => []
  | node tree => [tree]
  | block trees => trees

/-- The rows of a field of a node whose name is indented by `depth` levels. -/
def rows (depth : Nat) (field : String) : Entry → List Row
  | value text => [Tree.fieldRow depth field text]
  | node tree => Tree.nodeField depth field (tree.rows (depth + 2))
  | block trees => Tree.nodesField depth field (Tree.allRows (depth + 2) trees)

/-- Two fields of the same sort. -/
def SameSort : Entry → Entry → Prop
  | value _, value _ => True
  | node _, node _ => True
  | block _, block _ => True
  | _, _ => False

/-- Two fields that hold the same, up to spans. -/
def Alike : Entry → Entry → Prop
  | value text, value text' => text = text'
  | node tree, node tree' => tree.Same tree'
  | block trees, block trees' => Tree.eraseAll trees = Tree.eraseAll trees'
  | _, _ => False

end Entry

namespace Tree

/-- The fields of a node, by their names. -/
def fields : Tree → List (String × Entry)
  | hole _ => []
  | integer value _ => [("value", .value (Text.decimal value))]
  | arithmetic op lhs rhs _ => [("op", .value op.label), ("lhs", .node lhs), ("rhs", .node rhs)]
  | comparison op lhs rhs _ => [("op", .value op.label), ("lhs", .node lhs), ("rhs", .node rhs)]
  | nullary name _ => [("name", .value (Text.quoted name))]
  | prefixed name rhs _ => [("name", .value (Text.quoted name)), ("rhs", .node rhs)]
  | infixed name lhs rhs _ =>
    [("name", .value (Text.quoted name)), ("lhs", .node lhs), ("rhs", .node rhs)]
  | postfixed name lhs _ => [("name", .value (Text.quoted name)), ("lhs", .node lhs)]
  | call name args _ => [("name", .value (Text.quoted name)), ("args", .block args)]
  | definition form parameters body _ =>
    [("name", .value (Text.quoted form.name)), ("kind", .value form.shape.label),
      ("parameters", .value (nameList parameters)), ("body", .node body)]
  | program definitions _ => [("definitions", .block definitions)]

/-- The rows of a node are its name and the rows of its fields. -/
theorem rows_eq (depth : Nat) (tree : Tree) :
    tree.rows depth =
      ⟨depth, tree.nodeName⟩ :: tree.fields.flatMap fun field => field.2.rows depth field.1 := by
  cases tree <;> simp [rows, nodeName, fields, Entry.rows, nodeField]

/-- The rows of several trees are those of one after the other. -/
theorem allRows_eq_flatMap (depth : Nat) (trees : List Tree) :
    allRows depth trees = trees.flatMap (rows depth) := by
  induction trees with
  | nil => rfl
  | cons tree trees ih => rw [allRows, ih, List.flatMap_cons]

/-- The trees in the fields of a node are its children. -/
theorem mem_children_of_fields {tree : Tree} {field : String × Entry} (h : field ∈ tree.fields) :
    ∀ child ∈ field.2.trees, child ∈ tree.children := by
  revert field
  cases tree <;> simp [fields, Entry.trees, children]

/-- Nodes with the same name have the same fields, each of the same sort. -/
theorem fields_sameSort {a b : Tree} (h : a.nodeName = b.nodeName) :
    List.Forall₂ (fun field field' => field.1 = field'.1 ∧ field.2.SameSort field'.2)
      a.fields b.fields := by
  cases a <;> cases b <;> simp [nodeName] at h <;> simp [fields, Entry.SameSort]

/-- Lists of trees are equal up to spans if the trees in them are, one by one. -/
theorem eraseAll_eq_of_forall₂ {as bs : List Tree} (h : List.Forall₂ Same as bs) :
    eraseAll as = eraseAll bs := by
  induction h with
  | nil => rfl
  | cons hfirst _ ih => exact congrArg₂ List.cons hfirst ih

/-- Nodes with the same name whose fields hold the same are the same. -/
theorem same_of_fields {a b : Tree} (hname : a.nodeName = b.nodeName)
    (h : List.Forall₂ (fun field field' => field.2.Alike field'.2) a.fields b.fields) :
    a.Same b := by
  have hform : ∀ form form' : Form, form.name = form'.name → form.shape = form'.shape →
      form = form' := by
    rintro ⟨_, _⟩ ⟨_, _⟩ rfl rfl
    rfl
  cases a <;> cases b <;> simp [nodeName] at hname <;>
    simp [fields, Entry.Alike, Text.quoted_inj, Text.decimal_inj, Arithmetic.label_inj,
      Comparison.label_inj, Shape.label_inj, nameList_inj, Same] at h <;>
    simp [Same, erase, h]
  exact hform _ _ h.1 h.2.1

/-- From the rows of a tree with something behind them, both can be told, the tree up to its spans. -/
def Parted (depth : Nat) (tree : Tree) : Prop :=
  ∀ (other : Tree) (behind behind' : List Row),
    tree.rows depth ++ behind = other.rows depth ++ behind' → tree.Same other ∧ behind = behind'

/-- The first row of a tree is its name. -/
theorem rows_append_eq (depth : Nat) (tree : Tree) (behind : List Row) :
    ∃ more, tree.rows depth ++ behind = ⟨depth, tree.nodeName⟩ :: more := by
  rw [rows_eq]
  exact ⟨_, rfl⟩

/-- A block with nodes in it begins and ends with a bracket. -/
theorem nodesField_cons (depth : Nat) (field : String) (tree : Tree) (trees : List Tree) :
    nodesField depth field (allRows (depth + 2) (tree :: trees)) =
      ⟨depth + 1, field ++ ": ["⟩ ::
        ((tree :: trees).flatMap (rows (depth + 2)) ++ [⟨depth + 1, "]"⟩]) := by
  rw [← allRows_eq_flatMap, allRows]
  obtain ⟨more, hmore⟩ := rows_append_eq (depth + 2) tree (allRows (depth + 2) trees)
  rw [hmore]
  rfl

/-- The end of a block is not indented like the nodes in it. -/
theorem rows_append_ne (depth : Nat) (tree : Tree) (rest behind : List Row) :
    tree.rows (depth + 2) ++ rest ≠ ⟨depth + 1, "]"⟩ :: behind := by
  obtain ⟨more, hmore⟩ := rows_append_eq (depth + 2) tree rest
  rw [hmore]
  intro h
  have hdepth := congrArg Row.depth (List.head_eq_of_cons_eq h)
  exact absurd hdepth (Nat.succ_ne_self _)

/-- A block without nodes does not begin like one with nodes. -/
theorem empty_ne_opening (field : String) : field ++ ": " ++ "()" ≠ field ++ ": [" := by
  rw [String.append_assoc, Ne, String.append_right_inj]
  decide

/-- Blocks of nodes can be told from their rows, if the nodes can. -/
theorem nodesField_parted {depth : Nat} {field : String} {trees trees' : List Tree}
    (htrees : ∀ tree ∈ trees, tree.Parted (depth + 2)) {behind behind' : List Row}
    (h : nodesField depth field (allRows (depth + 2) trees) ++ behind =
      nodesField depth field (allRows (depth + 2) trees') ++ behind') :
    eraseAll trees = eraseAll trees' ∧ behind = behind' := by
  cases trees with
  | nil =>
      cases trees' with
      | nil => exact ⟨rfl, List.tail_eq_of_cons_eq h⟩
      | cons tree' trees' =>
          rw [nodesField_cons] at h
          have hrow := congrArg Row.text (List.head_eq_of_cons_eq h)
          exact absurd hrow (empty_ne_opening field)
  | cons tree trees =>
      cases trees' with
      | nil =>
          rw [nodesField_cons] at h
          have hrow := congrArg Row.text (List.head_eq_of_cons_eq h)
          exact absurd hrow.symm (empty_ne_opening field)
      | cons tree' trees' =>
          rw [nodesField_cons, nodesField_cons, List.cons_append, List.cons_append,
            List.append_assoc, List.append_assoc] at h
          have hblock := List.tail_eq_of_cons_eq h
          -- The block ends where the indentation falls back, so no node can begin there.
          obtain ⟨hsame, hbehind⟩ := flatMap_parted htrees
            (fun other rest => rows_append_ne depth other rest behind)
            (fun other rest => rows_append_ne depth other rest behind') hblock
          exact ⟨eraseAll_eq_of_forall₂ hsame, List.tail_eq_of_cons_eq hbehind⟩

/-- Fields of the same name and sort can be told from their rows, if the trees in them can. -/
theorem field_parted {entry entry' : Entry} (hsort : entry.SameSort entry') {depth : Nat}
    {field : String} (htrees : ∀ tree ∈ entry.trees, tree.Parted (depth + 2))
    {behind behind' : List Row}
    (h : entry.rows depth field ++ behind = entry'.rows depth field ++ behind') :
    entry.Alike entry' ∧ behind = behind' := by
  cases entry with
  | value text =>
      cases entry' with
      | node | block => exact hsort.elim
      | value text' =>
          obtain ⟨hrow, hbehind⟩ := List.cons.inj h
          exact ⟨(String.append_right_inj _).mp (congrArg Row.text hrow), hbehind⟩
  | node tree =>
      cases entry' with
      | value | block => exact hsort.elim
      | node tree' =>
          exact htrees tree (List.mem_singleton_self tree) tree' _ _ (List.tail_eq_of_cons_eq h)
  | block trees =>
      cases entry' with
      | value | node => exact hsort.elim
      | block trees' => exact nodesField_parted htrees h

/-- Lists of fields can be told from their rows, one after the other. -/
theorem fields_parted {fields fields' : List (String × Entry)} {depth : Nat}
    (hsort : List.Forall₂ (fun field field' => field.1 = field'.1 ∧ field.2.SameSort field'.2)
      fields fields')
    (htrees : ∀ field ∈ fields, ∀ tree ∈ field.2.trees, tree.Parted (depth + 2))
    {behind behind' : List Row}
    (h : (fields.flatMap fun field => field.2.rows depth field.1) ++ behind =
      (fields'.flatMap fun field => field.2.rows depth field.1) ++ behind') :
    List.Forall₂ (fun field field' => field.2.Alike field'.2) fields fields' ∧ behind = behind' := by
  induction hsort with
  | nil => exact ⟨.nil, h⟩
  | @cons field field' fields fields' hfield _ ih =>
      obtain ⟨hname, hsort⟩ := hfield
      rw [List.flatMap_cons, List.flatMap_cons, List.append_assoc, List.append_assoc, hname] at h
      obtain ⟨hfirst, hrest⟩ := field_parted hsort (htrees field List.mem_cons_self) h
      obtain ⟨hothers, hbehind⟩ :=
        ih (fun field hfield => htrees field (List.mem_cons_of_mem _ hfield)) hrest
      exact ⟨.cons hfirst hothers, hbehind⟩

/-- **A tree can be told from its rows**, whatever rows are behind them. -/
theorem parted (tree : Tree) : ∀ depth, tree.Parted depth := by
  induction tree using children_induction with
  | h tree ih =>
      intro depth other behind behind' h
      rw [rows_eq, rows_eq, List.cons_append, List.cons_append] at h
      obtain ⟨hfirst, hfields⟩ := List.cons.inj h
      have hname : tree.nodeName = other.nodeName := congrArg Row.text hfirst
      obtain ⟨halike, hbehind⟩ := fields_parted (fields_sameSort hname)
        (fun field hfield child hchild =>
          ih child (mem_children_of_fields hfield child hchild) (depth + 2)) hfields
      exact ⟨same_of_fields hname halike, hbehind⟩

end Tree

/-- A text that can stand on a row: it neither begins with a space nor breaks the line. -/
def Plain (text : String) : Prop :=
  text.toList.head?.any (· != ' ') = true ∧ '\n' ∉ text.toList

instance (text : String) : Decidable (Plain text) := inferInstanceAs (Decidable (_ ∧ _))

/-- A plain text may go on with anything that stays on the line. -/
theorem Plain.append {text more : String} (htext : Plain text) (hmore : '\n' ∉ more.toList) :
    Plain (text ++ more) := by
  obtain ⟨hstart, hunbroken⟩ := htext
  refine ⟨?_, ?_⟩
  · rw [String.toList_append, List.head?_append]
    cases hhead : text.toList.head? with
    | none => simp [hhead] at hstart
    | some c => simpa [hhead] using hstart
  · rw [String.toList_append, List.mem_append]
    exact not_or.mpr ⟨hunbroken, hmore⟩

namespace Row

/-- The row that is printed as a given line. -/
def ofLine (line : List Char) : Row :=
  ⟨(line.takeWhile (· == ' ')).length / 2, String.ofList (line.dropWhile (· == ' '))⟩

/-- A row with a plain text can be told from its line. -/
theorem ofLine_print {row : Row} (h : Plain row.text) : ofLine row.print.toList = row := by
  have hstart : row.text.toList.takeWhile (· == ' ') = [] ∧
      row.text.toList.dropWhile (· == ' ') = row.text.toList := by
    obtain ⟨hstart, -⟩ := h
    cases htext : row.text.toList with
    | nil => simp [htext] at hstart
    | cons c rest =>
        have hc : c ≠ ' ' := by simpa [htext] using hstart
        simp [hc]
  have hspaces : ∀ c ∈ List.replicate (2 * row.depth) ' ', (c == ' ') = true := by
    intro c hc
    simp [List.eq_of_mem_replicate hc]
  rw [ofLine, print, String.toList_append, String.toList_ofList,
    List.takeWhile_append_of_pos hspaces, List.dropWhile_append_of_pos hspaces, hstart.1, hstart.2]
  simp

/-- A row with a plain text is printed on one line. -/
theorem newline_not_mem_print {row : Row} (h : Plain row.text) : '\n' ∉ row.print.toList := by
  rw [print, String.toList_append, String.toList_ofList, List.mem_append]
  rintro (hspace | htext)
  · exact absurd (List.eq_of_mem_replicate hspace) (by decide)
  · exact h.2 htext

end Row

/-- The text in a field does not break the line. -/
def Entry.Unbroken : Entry → Prop
  | value text => '\n' ∉ text.toList
  | _ => True

/-- The rows of a field are plain if those of the trees in it are. -/
theorem Entry.rows_plain {entry : Entry} {depth : Nat} {field : String} (hfield : Plain field)
    (hentry : entry.Unbroken)
    (htrees : ∀ tree ∈ entry.trees, ∀ row ∈ tree.rows (depth + 2), Plain row.text) :
    ∀ row ∈ entry.rows depth field, Plain row.text := by
  cases entry with
  | value text =>
      intro row hrow
      obtain rfl := List.mem_singleton.mp hrow
      exact (hfield.append (by decide)).append hentry
  | node tree =>
      intro row hrow
      rcases List.mem_cons.mp hrow with rfl | hrow
      · exact hfield.append (by decide)
      · exact htrees tree (List.mem_singleton_self tree) row hrow
  | block trees =>
      cases trees with
      | nil =>
          intro row hrow
          obtain rfl := List.mem_singleton.mp hrow
          exact (hfield.append (by decide)).append (by decide)
      | cons tree trees =>
          intro row hrow
          rw [rows, Tree.nodesField_cons, List.mem_cons, List.mem_append, List.mem_singleton] at hrow
          rcases hrow with rfl | hrow | rfl
          · exact hfield.append (by decide)
          · obtain ⟨tree, htree, hrow⟩ := List.mem_flatMap.mp hrow
            exact htrees tree htree row hrow
          · exact (by decide : Plain "]")

namespace Tree

/-- The name of a node is plain. -/
theorem plain_nodeName (tree : Tree) : Plain tree.nodeName := by
  cases tree <;> rw [nodeName] <;> decide

/-- The fields of a node have plain names and stay on their lines. -/
theorem fields_plain (tree : Tree) : ∀ field ∈ tree.fields, Plain field.1 ∧ field.2.Unbroken := by
  have harithmetic : ∀ op : Arithmetic, '\n' ∉ op.label.toList := by
    intro op
    cases op <;> decide
  have hcomparison : ∀ op : Comparison, '\n' ∉ op.label.toList := by
    intro op
    cases op <;> decide
  have hshape : ∀ shape : Shape, '\n' ∉ shape.label.toList := by
    intro shape
    cases shape <;> decide
  have hnames : ∀ name ∈ ["value", "op", "lhs", "rhs", "name", "args", "kind", "parameters", "body",
      "definitions"], Plain name := by decide
  cases tree <;>
    simp [fields, Entry.Unbroken, harithmetic, hcomparison, hshape, hnames,
      Text.newline_not_mem_decimal, Text.newline_not_mem_quoted, newline_not_mem_nameList]

/-- All rows of a tree are plain. -/
theorem rows_plain (tree : Tree) : ∀ depth, ∀ row ∈ tree.rows depth, Plain row.text := by
  induction tree using children_induction with
  | h tree ih =>
      intro depth row hrow
      rw [rows_eq, List.mem_cons, List.mem_flatMap] at hrow
      rcases hrow with rfl | ⟨field, hfield, hrow⟩
      · exact plain_nodeName tree
      · obtain ⟨hname, hentry⟩ := fields_plain tree field hfield
        exact Entry.rows_plain hname hentry
          (fun child hchild => ih child (mem_children_of_fields hfield child hchild) (depth + 2))
          row hrow

/-- **The rows of an outline can be read back from its text.** -/
theorem rows_of_outlineText (tree : Tree) :
    (tree.outlineText.toList.splitOn '\n').map Row.ofLine = tree.rows 0 := by
  have hlines : ∀ line ∈ (tree.rows 0).map fun row => row.print.toList, '\n' ∉ line := by
    intro line hline
    obtain ⟨row, hrow, rfl⟩ := List.mem_map.mp hline
    exact Row.newline_not_mem_print (rows_plain tree 0 row hrow)
  have hsome : ((tree.rows 0).map fun row => row.print.toList) ≠ [] := by
    rw [rows_eq]
    exact List.cons_ne_nil _ _
  have hbreak : "\n".toList = ['\n'] := rfl
  rw [outlineText, String.toList_intercalate, hbreak, List.map_map]
  refine (congrArg (List.map Row.ofLine) (List.splitOn_intercalate '\n' hlines hsome)).trans ?_
  rw [List.map_map]
  have hread : ∀ row ∈ tree.rows 0, (Row.ofLine ∘ fun row => row.print.toList) row = id row :=
    fun row hrow => Row.ofLine_print (rows_plain tree 0 row hrow)
  rw [List.map_congr_left hread, List.map_id]

mutual

/-- The rows of a tree do not show its spans. -/
theorem rows_erase : ∀ (tree : Tree) (depth : Nat), tree.erase.rows depth = tree.rows depth := by
  intro tree depth
  cases tree <;> simp [erase, rows, rows_erase, allRows_eraseAll]

theorem allRows_eraseAll : ∀ (trees : List Tree) (depth : Nat),
    allRows depth (eraseAll trees) = allRows depth trees := by
  intro trees depth
  cases trees <;> simp [eraseAll, allRows, rows_erase, allRows_eraseAll]

end

mutual

/-- A tree is as deep without its spans. -/
theorem depth_erase : ∀ tree : Tree, tree.erase.depth = tree.depth := by
  intro tree
  cases tree <;> simp [erase, depth, depth_erase, maxDepth_eraseAll]

theorem maxDepth_eraseAll : ∀ trees : List Tree, maxDepth (eraseAll trees) = maxDepth trees := by
  intro trees
  cases trees <;> simp [eraseAll, maxDepth, depth_erase, maxDepth_eraseAll]

end

/-- Trees have the same outline if and only if they are the same up to spans. -/
theorem outlineText_eq_iff {a b : Tree} : a.outlineText = b.outlineText ↔ a.Same b := by
  constructor
  · intro h
    have hrows : a.rows 0 = b.rows 0 := by
      rw [← rows_of_outlineText a, h, rows_of_outlineText b]
    exact (a.parted 0 b [] [] (congrArg (· ++ []) hrows)).1
  · intro h
    rw [outlineText, outlineText, ← rows_erase a, h, rows_erase b]

/-- A tree that is not too deep, and whose numbers can be written, has an outline. -/
theorem outlineWithin_eq_ok {tree : Tree} {limit : Nat} (hdepth : tree.depth ≤ limit)
    (hwritable : tree.isWritable = true) : tree.outlineWithin limit = .ok tree.outlineText := by
  rw [outlineWithin, if_neg (Nat.not_lt.mpr hdepth), if_pos hwritable]

/-- **Outlines are faithful.**  A tree whose integers can be written has an outline, given room for its
levels, and another tree has the same outline just when the two differ at most in their spans. -/
theorem outline_faithful {a b : Tree} (ha : a.isWritable = true) (hb : b.isWritable = true)
    {limit : Nat} (hdepth : a.depth ≤ limit) :
    (∃ text, a.outlineWithin limit = .ok text) ∧
      (a.outlineWithin limit = b.outlineWithin limit ↔ a.Same b) := by
  have houtline := outlineWithin_eq_ok hdepth ha
  refine ⟨⟨_, houtline⟩, ?_⟩
  by_cases hother : b.depth ≤ limit
  · rw [houtline, outlineWithin_eq_ok hother hb, Except.ok.injEq]
    exact outlineText_eq_iff
  · have hnone : b.outlineWithin limit = .error .tooDeep := by
      rw [outlineWithin, if_pos (Nat.not_le.mp hother)]
    refine ⟨fun h => ?_, fun h => ?_⟩
    · rw [houtline, hnone] at h
      cases h
    · rw [← depth_erase b, ← h, depth_erase a] at hother
      exact absurd hdepth hother

/-- A command that takes what it is given. -/
def takes (parameters : List String) : Tree :=
  .definition ⟨"take", .prefixed⟩ parameters (.nullary "x" none) none

/-- One name that looks like the list of two names is told from it. -/
theorem outline_faithful_takes :
    ((takes ["x', 'y"]).isWritable = true ∧ (takes ["x", "y"]).isWritable = true ∧
      (takes ["x', 'y"]).depth ≤ outlineLimit) ∧
    (∃ text, (takes ["x', 'y"]).outline = .ok text) ∧
      (takes ["x', 'y"]).outline ≠ (takes ["x", "y"]).outline := by
  have hwritable : ∀ parameters, (takes parameters).isWritable = true := fun _ => rfl
  have hdepth : (takes ["x', 'y"]).depth ≤ outlineLimit := by decide
  obtain ⟨hsome, hiff⟩ := outline_faithful (hwritable ["x', 'y"]) (hwritable ["x", "y"]) hdepth
  exact ⟨⟨hwritable _, hwritable _, hdepth⟩, hsome, hiff.not.mpr (by decide)⟩

end Tree

end DiceLang
