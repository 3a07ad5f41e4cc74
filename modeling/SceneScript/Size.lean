/-!
Sizes of texts and lists.
-/

namespace SceneScript

/-- The sizes that can be counted. -/
def sizeLimit : Nat := 1 <<< 63

/-- What is of this size or more finds no room. -/
def roomLimit : Nat := 1 <<< 32

end SceneScript
