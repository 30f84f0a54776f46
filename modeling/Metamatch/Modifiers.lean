import Metamatch.Text.Blank

/-!
# Modifier words

A modifier word is a set of access flags packed into 32 bits, one flag a bit.

* `Modifiers.contains`, `Modifiers.intersects`, `Modifiers.union`, `Modifiers.inter`,
  `Modifiers.diff`: set operations on flags.
* `Modifiers.ofKeyword?`, `Modifiers.ofKeywords?`: flags by their keywords.
-/

namespace Metamatch

/-- A set of access flags. -/
structure Modifiers where
  bits : BitVec 32
  deriving DecidableEq, Repr

namespace Modifiers

/-- The word with the given bits; bits beyond the 32nd are dropped. -/
def ofNat (n : Nat) : Modifiers := ⟨BitVec.ofNat 32 n⟩

/-- The word as a number. -/
def toNat (m : Modifiers) : Nat := m.bits.toNat

/-! ## The flags -/

def empty : Modifiers := ⟨0x0000#32⟩
def isPublic : Modifiers := ⟨0x0001#32⟩
def isPrivate : Modifiers := ⟨0x0002#32⟩
def isProtected : Modifiers := ⟨0x0004#32⟩
def isStatic : Modifiers := ⟨0x0008#32⟩
def isFinal : Modifiers := ⟨0x0010#32⟩
def isSynchronized : Modifiers := ⟨0x0020#32⟩
def isVolatile : Modifiers := ⟨0x0040#32⟩
/-- On fields. -/
def isTransient : Modifiers := ⟨0x0080#32⟩
/-- On methods and constructors, where the bit of `isTransient` means variable arity. -/
def isVarargs : Modifiers := ⟨0x0080#32⟩
def isNative : Modifiers := ⟨0x0100#32⟩
def isInterface : Modifiers := ⟨0x0200#32⟩
def isAbstract : Modifiers := ⟨0x0400#32⟩
def isStrict : Modifiers := ⟨0x0800#32⟩
def isSynthetic : Modifiers := ⟨0x1000#32⟩
def isAnnotationType : Modifiers := ⟨0x2000#32⟩
def isEnum : Modifiers := ⟨0x4000#32⟩
/-- The three access flags; a member with none of them is private to its package. -/
def access : Modifiers := ⟨0x0007#32⟩

/-! ## Set operations -/

/-- Every flag of `other` is set. -/
def contains (m other : Modifiers) : Bool := m.bits &&& other.bits == other.bits

/-- Some flag of `other` is set. -/
def intersects (m other : Modifiers) : Bool := m.bits &&& other.bits != 0#32

def union (m other : Modifiers) : Modifiers := ⟨m.bits ||| other.bits⟩

def inter (m other : Modifiers) : Modifiers := ⟨m.bits &&& other.bits⟩

def diff (m other : Modifiers) : Modifiers := ⟨m.bits &&& ~~~other.bits⟩

def isEmpty (m : Modifiers) : Bool := m.bits == 0#32

/-! ## Keywords -/

/-- Flags by keyword, in lower case. -/
def keywords : List (String × Modifiers) :=
  [("public", isPublic), ("private", isPrivate), ("protected", isProtected),
   ("static", isStatic), ("final", isFinal), ("synchronized", isSynchronized),
   ("volatile", isVolatile), ("transient", isTransient), ("varargs", isVarargs),
   ("native", isNative), ("interface", isInterface), ("abstract", isAbstract),
   ("strictfp", isStrict), ("strict", isStrict), ("synthetic", isSynthetic),
   ("annotation", isAnnotationType), ("enum", isEnum)]

/-- The flag of a keyword. Case is ignored on the letters `A` to `Z`; there are no others. -/
def ofKeyword? (word : String) : Option Modifiers := keywords.lookup word.toLower

/-- The union of the flags of a list of keywords between blanks; one unknown word spoils it. -/
def ofKeywords? (text : String) : Option Modifiers :=
  (Text.words text).foldlM (fun flags word => (ofKeyword? word).map flags.union) empty

end Modifiers

end Metamatch
