/-!
# Languages

A language is known by its tag in canonical spelling, such as `de-CH`, and by how it writes numbers. Which tags
there are, and how they may be spelled, is left to the languages of a system.
-/

namespace Compositor

structure Language where
  tag : String
  /-- The mark between groups of three digits. -/
  groupMark : String := ","
deriving DecidableEq, Repr

namespace Language

/-- English, the language of all messages without a wording in another one. -/
def english : Language := { tag := "en" }

instance : Inhabited Language := ⟨english⟩

/-- German and its regional variants. -/
def isGerman (l : Language) : Bool := l.tag == "de" || l.tag.startsWith "de-"

end Language

/-- The languages of a system: the language with a tag, or what is wrong with the tag. -/
abbrev Languages := String → Except String Language

end Compositor
