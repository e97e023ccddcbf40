import VisualQuery.Toml.Line

/-!
The tables of a TOML document. How a table came about decides what may still be added to it: a
header opens a table once, and may take over one that only stood in the paths of other headers;
dotted keys add to tables that dotted keys have made; an inline table is complete as written.
-/

namespace VisualQuery.Toml

inductive Origin where
  /-- A header opened it. -/
  | header
  /-- It stands in the path of a header. -/
  | implied
  /-- It stands in the path of a key. -/
  | dotted
  | inline
deriving DecidableEq, Repr

/-- A value in a table. The tables of an array that headers add to are kept last first. -/
inductive Tree where
  | scalar (s : Scalar)
  | array (items : List Tree)
  | table (origin : Origin) (members : List (String × Tree))
  | tables (last : List (String × Tree)) (before : List Tree)

/-- The members of a table, sorted by key. -/
abbrev Members := List (String × Tree)

mutual

def Tree.all (test : Scalar → Bool) : Tree → Bool
  | .scalar s => test s
  | .array items => allItems test items
  | .table _ members => allMembers test members
  | .tables last before => allItems test before && allMembers test last

def allItems (test : Scalar → Bool) : List Tree → Bool
  | [] => true
  | t :: rest => t.all test && allItems test rest

def allMembers (test : Scalar → Bool) : List (String × Tree) → Bool
  | [] => true
  | (_, t) :: rest => t.all test && allMembers test rest

end

def alter (change : Option Tree → Option Tree) (key : String) : Members → Option Members
  | [] => do some [(key, ← change none)]
  | (k, t) :: rest =>
    if key = k then do some ((k, ← change (some t)) :: rest)
    else if key < k then do some ((key, ← change none) :: (k, t) :: rest)
    else do some ((k, t) :: (← alter change key rest))

def put (key : String) (value : Tree) : Members → Option Members :=
  alter (fun
    | none => some value
    | some _ => none) key

/-- Changes the table that a header path leads to; missing tables on the way are implied. -/
def underHeader (change : Members → Option Members) : List String → Members → Option Members
  | [], m => change m
  | key :: path, m =>
    alter (fun
      | none => do some (.table .implied (← underHeader change path []))
      | some (.table .inline _) => none
      | some (.table origin inner) => do some (.table origin (← underHeader change path inner))
      | some (.tables last before) => do some (.tables (← underHeader change path last) before)
      | some _ => none) key m

/-- Puts a value under a key at the end of a dotted path. The tables on the way must not have been
opened by a header, and the last one has to be made by dotted keys. -/
def underDots (key : String) (value : Tree) : Bool → List String → Members → Option Members
  | byDots, [], m => if byDots then put key value m else none
  | _, k :: path, m =>
    alter (fun
      | none => do some (.table .dotted (← underDots key value true path []))
      | some (.table .dotted inner) => do
        some (.table .dotted (← underDots key value true path inner))
      | some (.table .implied inner) => do
        some (.table .implied (← underDots key value false path inner))
      | some (.tables last before) => do
        some (.tables (← underDots key value false path last) before)
      | some _ => none) k m

def putAt (path : Path) (value : Tree) (m : Members) : Option Members :=
  underDots path.key value true path.parents m

mutual

/-- The tree of a value; the members of inline tables follow the rules for keys too. -/
def Value.tree? : Value → Option Tree
  | .scalar s => some (.scalar s)
  | .array items => do some (.array (← trees? items))
  | .inline members => do some (.table .inline (← addMembers? [] members))

def trees? : List Value → Option (List Tree)
  | [] => some []
  | v :: rest => do
    let t ← v.tree?
    let ts ← trees? rest
    some (t :: ts)

def addMembers? (m : Members) : List (Path × Value) → Option Members
  | [] => some m
  | (path, v) :: rest => do
    let m ← putAt path (← v.tree?) m
    addMembers? m rest

end

def openTable : Option Tree → Option Tree
  | none => some (.table .header [])
  | some (.table .implied m) => some (.table .header m)
  | some _ => none

def openArray : Option Tree → Option Tree
  | none => some (.tables [] [])
  | some (.tables last before) => some (.tables [] (.table .header last :: before))
  | some _ => none

/-- A document part of which has been taken in: the root table, and the path of the open one. -/
structure Progress where
  root : Members
  current : List String

def Progress.add (p : Progress) : Line → Option Progress
  | .openTable path => do
    let root ← underHeader (alter openTable path.key) path.parents p.root
    some ⟨root, path.parents ++ [path.key]⟩
  | .openArray path => do
    let root ← underHeader (alter openArray path.key) path.parents p.root
    some ⟨root, path.parents ++ [path.key]⟩
  | .assign path value => do
    let tree ← value.tree?
    let root ← underHeader (putAt path tree) p.current p.root
    some { p with root := root }

/-- The root table of a document; none if it is not a sound document. -/
def document? (text : String) : Option Members := do
  let lines ← linesOf? text
  let p ← lines.foldlM Progress.add ⟨[], []⟩
  some p.root

end VisualQuery.Toml
