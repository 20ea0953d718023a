import UioLinuxSample.Lib.Pattern

set_option autoImplicit false

/-! # `analysis_struct.py`: a graph of the structures in a C file

The script reads a file line by line. A line that opens a structure starts a node of the graph, the
lines in it become ports of the node, and a member that is itself a structure becomes an edge to the
node of that structure. The structure may be defined before or after the member: in the first case
the edge is added when the member is read, and in the second when the definition is closed.

A line is a list of characters. Each of the patterns that the script looks for is a linear pattern,
and the six cases are tried in the order of the script. The dictionary `node_database` has the names
of the nodes under the key `created`, and a dictionary with the keys `node_str` and `included_by`
for every structure. An exception that is not caught ends the script.

The text of the nodes is part of the state; what is printed at the end is not modelled.
-/

namespace UioLinuxSample.StructGraph

open Pattern

abbrev Text : Type := List Char

/-! ## The patterns -/

/-- `\s`: the white space of ASCII and of the rest of Unicode. -/
def isSpace (c : Char) : Bool :=
  (9 ≤ c.toNat && c.toNat ≤ 13) || (28 ≤ c.toNat && c.toNat ≤ 32)
    || (0x2000 ≤ c.toNat && c.toNat ≤ 0x200a)
    || c.toNat ∈ [0x85, 0xa0, 0x1680, 0x2028, 0x2029, 0x202f, 0x205f, 0x3000]

/-- `[a-zA-Z0-9]`. -/
def isAlnum (c : Char) : Bool :=
  ('a' ≤ c && c ≤ 'z') || ('A' ≤ c && c ≤ 'Z') || ('0' ≤ c && c ≤ '9')

/-- `[0-9a-zA-Z_\-]`. -/
def isWord (c : Char) : Bool := isAlnum c || c = '_' || c = '-'

def spaces : Item Char := Pattern.star isSpace 0

/-- A given character. -/
def char (c : Char) : Item Char := one (fun d => d = c) 0

def structWord : Text := "struct".toList

def constWord : Text := "const ".toList

/-- `([^a-zA-Z0-9]const )`. -/
def constPattern : List (Item Char) := one (fun c => !isAlnum c) 1 :: literal constWord

/-- `re.sub` of that by a blank. -/
def removeConst (line : Text) : Text := substitute constPattern [' '] 0 line

/-- `struct\s*([0-9a-zA-Z_\-]+)\s*\{`. -/
def openPattern : List (Item Char) :=
  literal structWord ++ spaces :: (plus isWord 1 ++ [spaces, char '{'])

/-- `struct\s*([0-9a-zA-Z_\-]+)\s*(\**)(\s*)([0-9a-zA-Z_\-]+)\s*;`. -/
def memberPattern : List (Item Char) :=
  literal structWord ++ spaces :: (plus isWord 1
    ++ spaces :: Pattern.star (fun c => c = '*') 2 :: Pattern.star isSpace 3 :: (plus isWord 4
    ++ [spaces, char ';']))

/-- `\s*[0-9a-zA-Z_\-]+\s*(\**[0-9a-zA-Z_\-]+)\s*;`. -/
def wordPattern : List (Item Char) :=
  spaces :: (plus isWord 0 ++ spaces :: Pattern.star (fun c => c = '*') 1 :: (plus isWord 1
    ++ [spaces, char ';']))

/-- `(.*)\s+(\**)(\s*)([0-9a-zA-Z_\-]+\s*);`. -/
def wordsPattern : List (Item Char) :=
  Pattern.star (fun c => c ≠ '\n') 1 :: (plus isSpace 0
    ++ Pattern.star (fun c => c = '*') 2 :: Pattern.star isSpace 3 :: (plus isWord 4
    ++ [Pattern.star isSpace 4, char ';']))

/-- `\s*[0-9a-zA-Z_\-]+\s*\**\s*\(\s*(\**\s*[0-9a-zA-Z_\-]+)\s*\)\s*\([^\)]*\)\s*;`. -/
def functionPattern : List (Item Char) :=
  spaces :: (plus isWord 0
    ++ spaces :: Pattern.star (fun c => c = '*') 0 :: spaces :: char '(' :: spaces
    :: Pattern.star (fun c => c = '*') 1 :: Pattern.star isSpace 1 :: (plus isWord 1
    ++ [spaces, char ')', spaces, char '(', Pattern.star (fun c => c ≠ ')') 0, char ')', spaces,
      char ';']))

/-- `\s*\}\s*;`. -/
def closePattern : List (Item Char) := [spaces, char '}', spaces, char ';']

/-! ## The state -/

/-- The values in `node_database`: the list of names, and the dictionary of a node. -/
inductive Value where
  | names (xs : List Text)
  | node (nodeStr : Option Text) (includedBy : Option (List Text))

inductive PyError where
  | nameError
  | keyError
  | typeError
  | attributeError
  deriving DecidableEq

structure State where
  /-- `cur_indentation_level`. -/
  level : Nat
  nodeName : Option Text
  db : Text → Option Value
  edgeList : List Text

def createdKey : Text := "created".toList

def State.init : State where
  level := 0
  nodeName := none
  db := Function.update (fun _ => none) createdKey (some (.names []))
  edgeList := []

def space4 : Text := List.replicate 4 ' '

def space8 : Text := space4 ++ space4

def space12 : Text := space4 ++ space8

def space16 : Text := space4 ++ space12

/-- The text of an edge. -/
def edgeText (parent node : Text) : Text :=
  space4 ++ parent ++ ":".toList ++ node ++ " -> ".toList ++ node ++ ":".toList ++ "head".toList

namespace State

/-- `if not tmp_edge_str in edge_list: edge_list.append(tmp_edge_str)`. -/
def addEdge (s : State) (parent node : Text) : State :=
  if edgeText parent node ∈ s.edgeList then s
  else { s with edgeList := s.edgeList ++ [edgeText parent node] }

def setValue (s : State) (key : Text) (v : Value) : State :=
  { s with db := Function.update s.db key (some v) }

/-- `name in node_database['created']`, also after the list was replaced by a dictionary. -/
def isCreated (s : State) (name : Text) : Except PyError Bool :=
  match s.db createdKey with
  | some (.names xs) => .ok (name ∈ xs)
  | some (.node nodeStr includedBy) =>
      .ok ((name = "node_str".toList && nodeStr.isSome)
        || (name = "included_by".toList && includedBy.isSome))
  | none => .error .keyError

/-- `node_database[node_name]['node_str'] += text`. -/
def appendNodeStr (s : State) (text : Text) : Except PyError State :=
  match s.nodeName with
  | none => .error .nameError
  | some nodeName =>
      match s.db nodeName with
      | none => .error .keyError
      | some (.names _) => .error .typeError
      | some (.node none _) => .error .keyError
      | some (.node (some str) includedBy) =>
          .ok (s.setValue nodeName (.node (some (str ++ text)) includedBy))

/-! ## The cases of the loop -/

/-- A structure is opened. -/
def openStruct (s : State) (name : Text) : Except PyError State :=
  let s := { s with level := s.level + 1 }
  if s.level = 1 then
    let nodeStr := space4 ++ "\"".toList ++ name ++ "\" [\n".toList ++ space8
      ++ "label = \"<head> ".toList ++ name ++ "\\l|\n".toList ++ space12 ++ "\x7b|\x7b\n".toList
    let s := { s with nodeName := some name }
    match s.db createdKey with
    | none => .error .keyError
    | some (.node _ _) => .error .attributeError
    | some (.names xs) =>
        let s := s.setValue createdKey (.names (xs ++ [name]))
        -- `try`, and `except` for a name that is new or not that of a dictionary
        match s.db name with
        | some (.node _ includedBy) => .ok (s.setValue name (.node (some nodeStr) includedBy))
        | _ => .ok (s.setValue name (.node (some nodeStr) none))
  else .ok s

/-- The value of a type with one more name in `included_by`: `try`, and the two nested `except` for a
dictionary without that key and for a name that is new or not that of a dictionary. -/
def addIncludedBy (v : Option Value) (nodeName : Text) : Value :=
  match v with
  | some (.node nodeStr (some parents)) => .node nodeStr (some (parents ++ [nodeName]))
  | some (.node nodeStr none) => .node nodeStr (some [nodeName])
  | _ => .node none (some [nodeName])

/-- A member that is a structure. -/
def structMember (s : State) (memberType stars gap name : Text) : Except PyError State := do
  let s ← s.appendNodeStr (space16 ++ "<".toList ++ memberType ++ "> ".toList ++ stars ++ gap
    ++ name ++ "\\l|\n".toList)
  match s.nodeName with
  | none => .error .nameError
  | some nodeName =>
      let s := s.setValue memberType (addIncludedBy (s.db memberType) nodeName)
      let created ← s.isCreated memberType
      return if created then s.addEdge nodeName memberType else s

/-- The edges to a node that is closed. -/
def addParents (nodeName : Text) : List Text → State → Except PyError State
  | [], s => .ok s
  | parent :: parents, s => do
      let created ← s.isCreated parent
      addParents nodeName parents (if created then s.addEdge parent nodeName else s)

/-- A structure is closed. -/
def closeStruct (s : State) : Except PyError State :=
  if s.level ≥ 1 then do
    let s := { s with level := s.level - 1 }
    if s.level = 0 then
      let s ← s.appendNodeStr (space12 ++ "\x7d\x7d\"\n".toList)
      let s ← s.appendNodeStr (space8 ++ "shape = \"record\"\n".toList ++ space4 ++ "];\n".toList)
      match s.nodeName with
      | none => .error .nameError
      | some nodeName =>
          -- those who have used the structure before it was closed
          match s.db nodeName with
          | some (.node _ (some parents)) => addParents nodeName parents s
          | _ => .ok s
    else .ok s
  else .ok s

/-- A search that only counts inside a structure. -/
def searchInside (s : State) (p : List (Item Char)) (line : Text) : Option (List Text) :=
  if s.level > 0 then search p line else none

/-- One turn of the loop. -/
def readLine (s : State) (tmpline : Text) : Except PyError State :=
  let line := removeConst tmpline
  -- `struct device {`
  match search openPattern line with
  | some m => s.openStruct (groupText openPattern m 1)
  | none =>
  -- `struct device *parent;`
  match s.searchInside memberPattern line with
  | some m =>
      let group := groupText memberPattern m
      s.structMember (group 1) (group 2) (group 3) (group 4)
  | none =>
  -- `void *driver_data;`
  match s.searchInside wordPattern line with
  | some m =>
      let name := groupText wordPattern m 1
      s.appendNodeStr (space16 ++ "<".toList ++ name ++ "> ".toList ++ name ++ "\\l|\n".toList)
  | none =>
  -- `const char *init_name;`
  match s.searchInside wordsPattern line with
  | some m =>
      let group := groupText wordsPattern m
      s.appendNodeStr (space16 ++ "<".toList ++ group 2 ++ "> ".toList ++ group 2 ++ group 3
        ++ group 4 ++ "\\l|\n".toList)
  | none =>
  -- `int *(*runtime_idle)(struct device *dev);`
  match s.searchInside functionPattern line with
  | some m =>
      let name := groupText functionPattern m 1
      s.appendNodeStr (space16 ++ "<".toList ++ name ++ "> (".toList ++ name ++ ")\\l|\n".toList)
  | none =>
  -- `};`, at any level
  match search closePattern line with
  | some _ => s.closeStruct
  | none => .ok s

/-- The loop over the lines of the file, up to the empty one that `readline` gives at its end. -/
def readLines : List Text → State → Except PyError State
  | [], s => .ok s
  | tmpline :: lines, s =>
      if tmpline = [] then .ok s
      else do
        let s ← s.readLine tmpline
        readLines lines s

end State

end UioLinuxSample.StructGraph
