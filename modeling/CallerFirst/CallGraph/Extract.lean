import CallerFirst.CallGraph
import CallerFirst.Walk

/-!
# The call graph of a unit

Calls without qualifier that are bound to a method of the unit's own type, between the methods and
initializer blocks of that type. Calls in the value of a field belong to a node of that field, which
is made at the first such call. Bodies of nested, local and anonymous types are not looked at.
-/

namespace CallerFirst

/-- The type whose calls count: the first at the level of the unit. -/
abbrev TopLevel := Option TypeBinding

namespace TopLevel

/-- Enters a type: the first at the level of the unit becomes the one that counts, and only types
with its key are gone into. -/
def enterType (top : TopLevel) (header : TypeHeader) : Bool × TopLevel :=
  match header.binding, top with
  | none, _ => (false, top)
  | some b, none => if b.isPrimary then (true, some b) else (false, none)
  | some b, some t => (b.key == t.key, top)

def owns (top : TopLevel) (binding : MethodBinding) : Bool :=
  match binding.declaringType, top with
  | some d, some t => d.key == t.key
  | _, _ => false

end TopLevel

namespace CallGraph

structure Extraction where
  graph : CallGraph Signature := {}
  top : TopLevel := none
  /-- The declaration whose calls are being read. -/
  caller : Option Signature := none
  initializers : Nat := 0
  fields : Nat := 0
  /-- The field whose value is being read. -/
  field : Option Nat := none

namespace Extraction

def start (e : Extraction) (s : Signature) : Extraction :=
  { e with graph := e.graph.create s, caller := some s }

/-- The node that calls are attributed to, made on demand for a field. -/
def withCaller (e : Extraction) : Extraction :=
  match e.caller, e.field with
  | none, some i => e.start (.ofFieldInitializer i)
  | _, _ => e

def localCall? (e : Extraction) (hasQualifier : Bool) (binding : Option MethodBinding) :
    Option Signature :=
  match binding with
  | some b => if !hasQualifier && e.top.owns b then some (.ofBinding b) else none
  | none => none

def call (e : Extraction) (callee : Signature) : Extraction :=
  let e := { e with graph := e.graph.create callee }.withCaller
  match e.caller with
  | some caller => { e with graph := e.graph.addEdge caller callee }
  | none => e

def enterType (e : Extraction) (header : TypeHeader) : Bool × Extraction :=
  let (deeper, top) := e.top.enterType header
  (deeper, { e with top })

def leaveMember (n : Node) (e : Extraction) : Extraction :=
  match n with
  | .method .. | .initializer .. => { e with caller := none }
  | .field .. => { e with caller := none, field := none }
  | _ => e

def visitor : Visitor Extraction where
  enter n e :=
    match n with
    | .type _ header _ => e.enterType header
    | .anonymousClass .. => (false, e)
    | .method _ header _ => (true, e.start (.ofMethod header))
    | .initializer .. =>
      (true, { e.start (.ofInitializer e.initializers) with initializers := e.initializers + 1 })
    | .field .. => (true, { e with field := some e.fields, fields := e.fields + 1 })
    | .call _ hasQualifier binding _ =>
      (true, (e.localCall? hasQualifier binding).elim e e.call)
    | _ => (true, e)
  leave := leaveMember

def filteredVisitor (filter : List Signature) : Visitor Extraction where
  enter n e :=
    match n with
    | .type _ header _ => e.enterType header
    | .anonymousClass .. | .initializer .. | .field .. => (false, e)
    | .method _ header _ =>
      let s := Signature.ofMethod header
      if filter.contains s then (true, e.start s) else (false, e)
    | .call _ hasQualifier binding _ =>
      match e.localCall? hasQualifier binding with
      | some s => (true, if filter.contains s then e.call s else e)
      | none => (true, e)
    | _ => (true, e)
  leave := leaveMember

end Extraction

def ofUnit (unit : Node) : CallGraph Signature :=
  (Extraction.visitor.walk unit {}).graph

def ofUnitWithin (filter : List Signature) (unit : Node) : CallGraph Signature :=
  ((Extraction.filteredVisitor filter).walk unit {}).graph

end CallGraph

end CallerFirst
