import LiterateRuby.Document

/-! # The forest of namespaces

Units are grouped by their paths. A branch stands for one path; it carries the unit with that
path, if there is one, and the branches below it in the order in which a path through them first
occurs.
-/

namespace LiterateRuby

/-- A namespace: the last segment of its path, its unit, and the namespaces in it. -/
inductive Branch where
  | node (name : String) (unit : Option RubyUnit) (children : List Branch)

namespace Branch

def name : Branch → String
  | .node name _ _ => name

/-- The unit with the path of the branch. -/
def unit? : Branch → Option RubyUnit
  | .node _ unit _ => unit

def children : Branch → List Branch
  | .node _ _ children => children

/-- Whether the branch shows only as a module around the branches below it. -/
def isWrapper (branch : Branch) : Bool := (branch.unit?.map (·.isNamespaceOnly)).getD true

/-- Changes the branch of a name, or appends a new one. -/
def place (name : String) (grow : Branch → Branch) : List Branch → List Branch
  | [] => [grow (.node name none [])]
  | branch :: rest =>
    if branch.name = name then grow branch :: rest else branch :: place name grow rest

def insert (unit : RubyUnit) : List String → List Branch → List Branch
  | [], branches => branches
  | [last], branches =>
    place last (fun branch => .node branch.name (some unit) branch.children) branches
  | segment :: rest, branches =>
    place segment
      (fun branch => .node branch.name branch.unit? (insert unit rest branch.children)) branches

def forest (units : List RubyUnit) : List Branch :=
  units.foldl (fun branches unit => insert unit unit.path branches) []

mutual

/-- The paths of a branch and of the branches below it, each with the unit it carries, parents
first. -/
def entries (above : List String) : Branch → List (List String × Option RubyUnit)
  | .node name unit children =>
    (above ++ [name], unit) :: entriesAll (above ++ [name]) children

def entriesAll (above : List String) : List Branch → List (List String × Option RubyUnit)
  | [] => []
  | branch :: rest => entries above branch ++ entriesAll above rest

end

end Branch

end LiterateRuby
