import KeyHarvest.Text.Split

/-!
# Paths

A path is a text in which `/` separates components. `join`, `components`, `parent?` and
`extension?` look at the text alone: empty components and components `.` do not count, except for a
leading `.` of a relative path, and `..` is a component like any other.
-/
namespace KeyHarvest.Path

def isSeparator (c : Char) : Bool := c == '/'

def isAbsolute (path : Text) : Bool := path.head? == some '/'

/-- A path from a base; an absolute path replaces the base. -/
def join (base path : Text) : Text :=
  if isAbsolute path then path
  else if base.isEmpty || base.getLast? == some '/' then base ++ path
  else base ++ '/' :: path

inductive Component where
  | root
  | current
  | parent
  | name (text : Text)
deriving DecidableEq, Repr

def component? (piece : Text) : Option Component :=
  if piece = [] ∨ piece = ['.'] then none
  else if piece = ['.', '.'] then some .parent
  else some (.name piece)

def components (path : Text) : List Component :=
  let leading : List Component :=
    if isAbsolute path then [.root]
    else if (pieces isSeparator path).head? = some ['.'] then [.current]
    else []
  leading ++ (pieces isSeparator path).filterMap component?

/-- Whether a path is at or below another, component by component. -/
def startsWith (path base : Text) : Bool := (components base).isPrefixOf (components path)

def fileName? (path : Text) : Option Text :=
  match (components path).getLast? with
  | some (.name text) => some text
  | _ => none

/-- The part of a name after its last point, unless the point is its first character. -/
def nameExtension? (name : Text) : Option Text :=
  if (name.drop 1).contains '.' then some (name.reverse.takeWhile (· != '.')).reverse else none

def extension? (path : Text) : Option Text := (fileName? path).bind nameExtension?

/-- What precedes the components that can be taken off: the root, or a leading `.`. -/
def lead (path : Text) : Text :=
  if isAbsolute path then ['/']
  else if path = ['.'] ∨ path.take 2 = ['.', '/'] then ['.']
  else []

/-- Takes separators and components `.` off the end of a text that is given in reverse. -/
def dropInsignificant : Text → Text
  | '/' :: rest => dropInsignificant rest
  | ['.'] => []
  | '.' :: '/' :: rest => dropInsignificant rest
  | text => text

theorem length_dropInsignificant_le (text : Text) :
    (dropInsignificant text).length ≤ text.length := by
  fun_induction dropInsignificant text with
  | case1 rest ih => simp only [List.length_cons]; omega
  | case2 => simp
  | case3 rest ih => simp only [List.length_cons]; omega
  | case4 => exact Nat.le_refl _

theorem length_lead_le (path : Text) : (lead path).length ≤ path.length := by
  unfold lead isAbsolute
  cases path with
  | nil => simp
  | cons c rest =>
    split
    · simp
    · split <;> simp

def parent? (path : Text) : Option Text :=
  match dropInsignificant (path.drop (lead path).length).reverse with
  | [] => if lead path = ['.'] then some [] else none
  | _ :: rest => some (lead path ++ (dropInsignificant (rest.dropWhile (!isSeparator ·))).reverse)

theorem parent?_shorter {path parent : Text} (found : parent? path = some parent) :
    parent.length < path.length := by
  have bound := length_dropInsignificant_le (path.drop (lead path).length).reverse
  have leading := length_lead_le path
  unfold parent? at found
  split at found
  · split at found
    next current =>
      simp only [Option.some.injEq] at found
      rw [current] at leading
      subst found
      exact leading
    · simp at found
  next last rest body =>
    have upper := length_dropInsignificant_le (rest.dropWhile (!isSeparator ·))
    have name := length_dropWhile_le (!isSeparator ·) rest
    simp only [Option.some.injEq] at found
    simp only [body, List.length_cons, List.length_reverse, List.length_drop] at bound
    rw [← found]
    simp only [List.length_append, List.length_reverse]
    omega

/-- A path and all its parents, from the path itself to the root or the empty path. -/
def ancestors (path : Text) : List Text :=
  path :: match _found : parent? path with
    | some parent => ancestors parent
    | none => []
termination_by path.length
decreasing_by exact parent?_shorter ‹_›

end KeyHarvest.Path
