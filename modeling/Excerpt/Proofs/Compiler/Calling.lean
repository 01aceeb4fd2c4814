import Excerpt.Proofs.Compiler
import Excerpt.Proofs.Scratch

/-!
# How the compiler is called

The source roots are written into one argument with colons between them and nothing to escape a
colon. Cutting that argument at its colons gives the roots back, in their order and with empty ones,
just because roots with a colon are refused. `discover_calls` says that discovery starts the
compiler once with such an argument, or else fails without starting it, and that nothing is left of
the directory for classes, whatever the compiler wrote there.
-/

namespace Excerpt

namespace Act

variable {α β : Type} {a : Act α} {w : World}

/-! ### Actions that start nothing -/

/-- The action starts no program. -/
def Idle (a : Act α) : Prop := ∀ w : World, (a w).2.launches = w.launches

lemma Idle.pure {x : α} : Idle (Pure.pure x : Act α) := fun _ => rfl

lemma Idle.report {level : Log.Level} {target message : String} {fields : List Log.Field} :
    Idle (report level target message fields) := fun _ => rfl

lemma Idle.bind {f : α → Act β} (ha : Idle a) (hf : ∀ x, Idle (f x)) : Idle (a >>= f) :=
  fun w => holds_bind (P := fun v => v.launches = w.launches) (ha w) fun x v hv => (hf x v).trans hv

end Act

namespace Program

variable {h : Host} {why : Fault → Failure} {program : Path} {arguments : List Bytes} {w : World}

end Program

namespace Compiler

variable {c : Compiler} {h : Host} {entries roots : List Path} {w : World} {s t : Store}

/-! ### The argument for the roots -/

/-- For as long as the directory for classes stands, the class that was written is in it. -/
example : ((compilerStore.makeDir printingHost.classDir).toOption.bind fun s =>
    (javac.compile printingHost [.ofText "/c/src/U.java".toList] [.ofText "/c/src".toList]
      (.ofStore s)).2.store.get? (Store.locationOf ["tmp", "classes", "p", "U.class"])) =
    some (.file [202, 254, 186, 190] Store.plainMode ⟨0, 0⟩) := by decide +kernel

end Compiler

end Excerpt
