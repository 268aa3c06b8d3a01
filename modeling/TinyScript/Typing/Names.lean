import TinyScript.Scope
import TinyScript.Typing.Error

/-!
# Names of types

Which type a name in a program stands for: the eight types that can be named, under their own
names, and whatever aliases a host adds. A later name takes the place of an earlier one.
-/

namespace TinyScript.Typing

/-- The names of types and what they stand for. -/
structure TypeNames where
  entries : List (String × Ty)
deriving Repr

namespace TypeNames

/-- The names that every program can use. -/
def builtin : TypeNames := ⟨Ty.named.map fun ty => (ty.name, ty)⟩

instance : Inhabited TypeNames := ⟨builtin⟩

/-- The type that a name stands for. -/
def find? (names : TypeNames) (name : String) : Option Ty := names.entries.lookup name

/-- Makes a name stand for a type. -/
def register (names : TypeNames) (name : String) (ty : Ty) : TypeNames :=
  ⟨(name, ty) :: names.entries⟩

/-- The type that a name has to stand for. -/
def resolve (names : TypeNames) (name : String) : Except TypeError Ty :=
  match names.find? name with
  | some ty => .ok ty
  | none => .error (.unknownType name)

/-- The type that an optional name stands for. -/
def resolveOptional (names : TypeNames) : Option String → Except TypeError (Option Ty)
  | none => .ok none
  | some name => (names.resolve name).map some

theorem find?_register (names : TypeNames) (name other : String) (ty : Ty) :
    (names.register name ty).find? other =
      if other = name then some ty else names.find? other := by
  simp [find?, register, lookup_entry_cons]

end TypeNames

end TinyScript.Typing
