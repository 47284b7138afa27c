import Recalc.Graph.Links
import Recalc.Sheet.Dependencies

namespace Recalc

/-- Which cells read which, looked up from both ends. -/
structure Graph where
  /-- The cells that a cell reads. -/
  precedents : Links
  /-- The cells that read a cell. -/
  dependents : Links

namespace Graph

def empty : Graph := ⟨∅, ∅⟩

/-- Note that `reader` reads `read`. -/
def add (g : Graph) (reader read : Address) : Graph :=
  ⟨g.precedents.link reader read, g.dependents.link read reader⟩

def removeOutgoing (g : Graph) (a : Address) : Graph :=
  ⟨g.precedents.erase a,
    (g.precedents.of a).toList.foldl (fun m read => m.unlink read a) g.dependents⟩

def removeAll (g : Graph) (a : Address) : Graph :=
  let h := g.removeOutgoing a
  ⟨(h.dependents.of a).toList.foldl (fun m reader => m.unlink reader a) h.precedents,
    h.dependents.erase a⟩

/-- Whether a loop would arise if `reader` read `read`, because `read` already leads to it. -/
def closesLoop (g : Graph) (reader read : Address) : Bool :=
  reader ∈ g.precedents.reach ∅ [read]

/-- All cells that read `a`, directly or through others. -/
def closure (g : Graph) (a : Address) : AddressSet :=
  g.dependents.reach ∅ (g.dependents.of a).toList

def addUnlessLoop (g : Graph) (reader read : Address) : Graph :=
  if g.closesLoop reader read then g else g.add reader read

/-- The links of all formulas of a sheet, row by row; one that closes a loop is left out. -/
def ofSheet (s : Sheet) : Graph :=
  s.occupied.foldl
    (fun g (a, c) => (s.dependencies c).foldl (fun g read => g.addUnlessLoop a read) g) empty

def edgeCount (g : Graph) : Nat := g.precedents.count

/-- Whether every link of `m` stands in `n` the other way round. -/
def mirroredIn (m n : Links) : Bool :=
  m.toList.all fun entry => entry.2.toList.all fun b => entry.1 ∈ n.of b

/-- Whether both ends tell the same. -/
def isConsistent (g : Graph) : Bool :=
  mirroredIn g.precedents g.dependents && mirroredIn g.dependents g.precedents

end Graph

end Recalc
