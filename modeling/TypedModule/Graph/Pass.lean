import TypedModule.Assembly
import TypedModule.Graph.Annotate
import TypedModule.Graph.Work

/-!
# The typing pass

The pass takes the record of a code generator and replaces its code by the typed module: a copy
of the code, annotated, in a holder under a new root, with the declarations behind it. It
either succeeds as a whole or leaves the record and its code as they were. Malformed settings come
first, then missing code, then settings of no fitting kind, then a bad name, then a foreign child
that has no copy. Those that have one are copied and left out of the module.
-/

namespace TypedModule

inductive PassFault
  | settings (fault : SettingsFault)
  | missingCode
  | notSettings (kind : String)
  | name (fault : NameFault)
  | walk (obstacle : Obstacle)

def PassFault.message : PassFault → String
  | settings fault => fault.message
  | missingCode =>
    "typewrap requires the parser generator to produce Javascript source code before " ++
      "continuing, but something went wrong and no generated source code was found"
  | notSettings kind => lackMessage kind "error_name"
  | name fault => fault.message
  | walk obstacle => obstacle.message

/-- What a generator hands over: its code, if any, and other attributes. -/
structure Record where
  code : Option NodeId
  others : List (String × Json) := []

/-- A successful run: the new graph, the root of the module, the annotated copy of the code
in it, and what was declared. -/
structure Outcome where
  graph : Graph
  root : NodeId
  code : NodeId
  declarations : Declarations

/-- What a run tells about its work. -/
def Outcome.report (out : Outcome) : String :=
  match out.graph.fragments out.code with
  | .ok fragments => out.declarations.report fragments
  | .error obstacle => obstacle.message

namespace Graph

/-- Puts a node under a new root, in a new holder. The node itself is taken, not a copy. What is
put in front last comes first. -/
def enclose (g : Graph) (header : Option String) (code : NodeId) : Graph × NodeId :=
  let root := g.size
  let holder := g.size + 1
  let g := ((g.alloc {}).1.alloc {}).1
  let g := (g.add root (.node holder)).1
  let g := (g.add holder (.node code)).1
  let g := match header with
    | none => g
    | some text => (g.prepend root (.text (text ++ "\n\n"))).1
  let g := (g.prepend root (.text disableDirective)).1
  let g := (g.prepend holder (.text holderLead)).1
  (g, root)

def wrap (g : Graph) (s : Settings) (strict : Bool) (code : Option NodeId) :
    Except PassFault Outcome :=
  match code with
  | none => .error .missingCode
  | some i =>
    match s.checkedName strict with
    | .error e => .error (.name e)
    | .ok name =>
      match g.copy i with
      | .error e => .error (.walk e)
      | .ok (g, code) =>
        let g := g.annotate code
        let (g, root) := g.enclose s.effectiveHeader code
        let declarations := s.declarations name
        let g := (g.add root (.list (declarations.chunks.map .text))).1
        .ok ⟨g, root, code, declarations⟩

end Graph

namespace Work

/-- The steps of `Graph.wrap`, one after another on the graph at hand. -/
def wrap (s : Settings) (strict : Bool) : Option NodeId → Work PassFault Outcome
  | none => throw .missingCode
  | some i => do
    let name ← ofExcept ((s.checkedName strict).mapError .name)
    let code ← (copy i).adapt .walk
    modify fun g => g.annotate code
    let root ← modifyGet fun g => (g.enclose s.effectiveHeader code).swap
    let declarations := s.declarations name
    modify fun g => (g.add root (.list (declarations.chunks.map .text))).1
    return ⟨← get, root, code, declarations⟩

/-- Runs the pass for settings in the shape of a data file. -/
def pass (settings : Json) (strict : Bool) (code : Option NodeId) : Work PassFault Outcome :=
  match settings with
  | .scalar .null => wrap {} strict code
  | .object fields => do
    let s ← ofExcept ((Settings.ofJson (.object fields)).mapError .settings)
    wrap s strict code
  | value =>
    match code with
    | none => throw .missingCode
    | some _ => throw (.notSettings value.kind)

end Work

/-- Runs the pass on a record. The code of the record is replaced last of all. -/
def Record.run (r : Record) (g : Graph) (settings : Json) (strict : Bool) :
    (Graph × Record) × Except PassFault String :=
  match (Work.pass settings strict r.code).on g with
  | (.error e, h) => ((h, r), .error e)
  | (.ok out, h) => ((h, { r with code := some out.root }), .ok out.report)

end TypedModule
