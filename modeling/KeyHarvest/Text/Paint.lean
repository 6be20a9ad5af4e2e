import KeyHarvest.Text.Split

/-!
# Terminal colours

A painted text stands between the codes of its style and the code that ends all styles. Where the
text ends all styles itself, its own style is taken up again.
-/
namespace KeyHarvest

/-- The styles in use. -/
inductive Style where
  | bold
  | dimmed
  | green
  | cyan
  /-- Bold and yellow. -/
  | warning
deriving DecidableEq, Repr

/-- The codes of a style, joined by semicolons. -/
def Style.codes : Style → Text
  | .bold => "1".toList
  | .dimmed => "2".toList
  | .green => "32".toList
  | .cyan => "36".toList
  | .warning => "1;33".toList

/-- The sequence that starts a style. -/
def Style.start (style : Style) : Text := "\x1b[".toList ++ style.codes ++ ['m']

/-- The sequence that ends all styles. -/
def styleEnd : Text := "\x1b[0m".toList

/-- Takes a style up again after each end of all styles. -/
def resumeStyle (style : Style) (text : Text) : Text :=
  go [] text
where
  go (seen : Text) : Text → Text
    | [] => seen.reverse
    | '\x1b' :: '[' :: '0' :: 'm' :: rest =>
      go (style.start.reverse ++ styleEnd.reverse ++ seen) rest
    | c :: rest => go (c :: seen) rest

/-- A text in a style, or as it is where colours are off. -/
def paint (colours : Bool) (style : Style) (text : Text) : Text :=
  if colours then style.start ++ resumeStyle style text ++ styleEnd else text

@[simp] theorem paint_false (style : Style) (text : Text) : paint false style text = text := rfl

end KeyHarvest
