import CallerFirst.CallGraph.Extract

/-!
# Methods declared by a unit

The methods and the number of initializer blocks of the type that counts, in source order.
-/

namespace CallerFirst

structure Declared where
  top : TopLevel := none
  /-- Methods and constructors, in reverse while reading. -/
  methods : List Method := []
  initializers : Nat := 0

namespace Declared

def visitor : Visitor Declared where
  enter n d :=
    match n with
    | .type _ header _ =>
      let (deeper, top) := d.top.enterType header
      (deeper, { d with top })
    | .method _ header _ => (false, { d with methods := header :: d.methods })
    | .initializer .. => (false, { d with initializers := d.initializers + 1 })
    | .anonymousClass .. | .field .. => (false, d)
    | _ => (true, d)
  leave _ d := d

def ofUnit (unit : Node) : Declared :=
  let d := visitor.walk unit {}
  { d with methods := d.methods.reverse }

end Declared

end CallerFirst
