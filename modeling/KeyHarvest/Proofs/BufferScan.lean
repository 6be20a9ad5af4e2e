import KeyHarvest.Buffer.Tags
import KeyHarvest.Proofs.Encoding
import KeyHarvest.Proofs.Scan

/-!
# The scan of a buffer

The scan by places of a buffer is the scan of its text: at a place with `rest` behind it, each of
its searches gives the place that the cut of `rest` gives, and each of its accesses succeeds. The
invariant is that the place is the size of a text `before` with `before ++ rest` the whole, so that
places stand in front of characters only.
-/
namespace KeyHarvest
open CodeUnit

/-! ### Quotes -/

theorem stepQuote_agree {quote : Option Char} (delimits : Delimits quote) {c : Char} {byte : UInt8}
    (member : byte ∈ String.utf8EncodeChar c) : stepQuote quote byte = stepQuote quote c := by
  cases quote with
  | some q => simp only [stepQuote, agree_is (isQuote_ascii (delimits q rfl)) c byte member]
  | none =>
    have double : is '"' byte = is '"' c := agree_is (by decide) c byte member
    have single : is '\'' byte = is '\'' c := agree_is (by decide) c byte member
    simp only [stepQuote, double, single]

/-! ### Where a tag ends -/

theorem findUnquoted_append {quote : Option Char} {place : Nat} {quiet more : List UInt8}
    (passed : ∀ byte ∈ quiet, is '>' byte = false ∧ stepQuote quote byte = quote) :
    findUnquoted quote place (quiet ++ more) =
      findUnquoted quote (place + quiet.length) more := by
  induction quiet generalizing place with
  | nil => rfl
  | cons byte quiet ih =>
    obtain ⟨unended, same⟩ := passed byte List.mem_cons_self
    rw [List.cons_append, findUnquoted, if_neg (by simp [unended]), same, ih, List.length_cons,
      Nat.add_assoc, Nat.add_comm 1]
    exact fun other member => passed other (List.mem_cons_of_mem byte member)

/-- Byte by byte the end of a tag is found at the place where it is found unit by unit. -/
theorem findUnquoted_encode {quote : Option Char} (delimits : Delimits quote) (base : Nat)
    (seen text : Text) :
    findUnquoted quote (base + size seen) (encode text) =
      (splitUnquoted quote seen.reverse text).map fun (passed, _) => base + size passed := by
  induction text generalizing quote seen with
  | nil => rfl
  | cons c text ih =>
    have later := ih (delimits.step c) (seen ++ [c])
    rw [List.reverse_append, List.reverse_singleton, List.singleton_append, size_append,
      ← Nat.add_assoc] at later
    have ends : ∀ byte ∈ String.utf8EncodeChar c, is '>' byte = is '>' c :=
      agree_is (by decide) c
    rw [encode_cons, splitUnquoted]
    by_cases ascii : c.toNat < 128
    · -- One byte stands for the character, and what it does is what the character does.
      have wide : size [c] = 1 := size_append_ascii [] ascii
      rw [wide] at later
      rw [utf8EncodeChar_of_lt ascii] at ends ⊢
      rw [List.singleton_append, findUnquoted, ends _ List.mem_cons_self]
      split
      · simp
      · rw [← later, ← stepQuote_agree delimits (c := c)]
        rw [utf8EncodeChar_of_lt ascii]
        exact List.mem_cons_self
    · -- Neither the character nor any of its bytes ends the tag or changes the quote.
      have other : 128 ≤ c.toNat := Nat.le_of_not_lt ascii
      have unended : is '>' c = false := is_of_le (by decide) other
      have same : stepQuote quote c = quote := stepQuote_of_le delimits other
      have quiet : ∀ byte ∈ String.utf8EncodeChar c,
          is '>' byte = false ∧ stepQuote quote byte = quote := by
        intro byte member
        exact ⟨(ends byte member).trans unended, (stepQuote_agree delimits member).trans same⟩
      rw [same, size_cons, size_nil, Nat.add_zero] at later
      rw [findUnquoted_append quiet, if_neg (by simp [unended]), same, ← later,
        String.length_utf8EncodeChar]
      rfl

namespace Buffer

variable {buffer : Buffer} {before rest : Text}

theorem findTagEnd_text (whole : buffer.text = before ++ rest) :
    buffer.findTagEnd (size before) =
      (splitTagEnd rest).map fun (passed, _) => size (before ++ passed) := by
  have finds := findUnquoted_encode delimits_none (size before) [] rest
  have first := findByte_text (by decide : '>'.toNat < 128) whole
  rw [size_nil, Nat.add_zero, List.reverse_nil] at finds
  rw [findByte] at first
  rw [findTagEnd, KeyHarvest.findTagEnd, drop_bytes whole, finds, first, splitTagEnd]
  cases splitUnquoted none [] rest with
  | none => rfl
  | some cut => simp

/-! ### Where markup starts -/

theorem startsMarkupAt_text (whole : buffer.text = before ++ '<' :: rest) :
    buffer.startsMarkupAt (size before) = startsMarkup ('<' :: rest) := by
  have behind : buffer.text = (before ++ ['<']) ++ rest := whole.trans (List.append_cons ..)
  rw [startsMarkupAt, ← size_append_ascii before (by decide : '<'.toNat < 128)]
  cases rest with
  | nil =>
    have ended : buffer.bytes.length ≤ size (before ++ ['<']) := by
      rw [length_bytes behind, size_nil]
      omega
    rw [List.getElem?_eq_none ended]
    rfl
  | cons c rest =>
    obtain ⟨byte, member, stands⟩ := getElem?_bytes behind
    have letter := agree_isLetter c byte member
    have slash : is '/' byte = is '/' c := agree_is (by decide) c byte member
    have bang : is '!' byte = is '!' c := agree_is (by decide) c byte member
    have question : is '?' byte = is '?' c := agree_is (by decide) c byte member
    rw [stands]
    simp only [letter, slash, bang, question]
    rfl

end Buffer

/-- Without a `<` no markup starts. -/
theorem failsWithin_startsMarkup {text : Text} (plain : ∀ c ∈ text, is '<' c = false)
    (rest : Text) : FailsWithin startsMarkup text rest := by
  intro left right equal some
  obtain ⟨c, more, rfl⟩ := List.exists_cons_of_ne_nil some
  have other := plain c (by simp [equal])
  rw [← Bool.not_eq_true, List.cons_append, startsMarkup_iff]
  rintro ⟨a, behind, whole, -⟩
  rw [List.cons.injEq] at whole
  rw [whole.1] at other
  cases other

namespace Buffer

variable {buffer : Buffer} {before rest : Text}

/-- The search for markup goes from one `<` to the next until one of them starts markup. -/
theorem findMarkup_text (whole : buffer.text = before ++ rest) :
    buffer.findMarkup (size before) =
      if (splitBefore startsMarkup rest).2 = [] then none
      else some (size (before ++ (splitBefore startsMarkup rest).1)) := by
  induction length : rest.length using Nat.strongRecOn generalizing before rest with
  | ind bound ih =>
    subst length
    have ascii : '<'.toNat < 128 := by decide
    have finds := findByte_text ascii whole
    cases cut : splitAt? (is '<') rest with
    | none =>
      rw [cut] at finds
      have plain := failsWithin_startsMarkup (splitAt?_eq_none_iff.mp cut) []
      have all := splitBefore_of_fails plain
      rw [List.append_nil] at all
      rw [findMarkup_of_none finds, all]
      rfl
    | some parts =>
      obtain ⟨passed, after⟩ := parts
      obtain ⟨unit, rfl, same, none⟩ := splitAt?_eq_some_iff.mp cut
      rw [is_iff] at same
      subst same
      rw [cut] at finds
      have plain := failsWithin_startsMarkup none ('<' :: after)
      have here : buffer.text = (before ++ passed) ++ '<' :: after := by
        rw [whole, List.append_assoc]
      rw [findMarkup_of_some finds, startsMarkupAt_text here, splitBefore_of_fails plain]
      split
      next starts =>
        rw [splitBefore_of_test starts, if_neg (by simp), List.append_nil]
      next other =>
        -- This `<` is text, and the search goes on behind it.
        have behind : buffer.text = (before ++ passed ++ ['<']) ++ after :=
          here.trans (List.append_cons ..)
        have place := size_append_ascii (before ++ passed) ascii
        have shorter : after.length < (passed ++ '<' :: after).length := by
          rw [List.length_append, List.length_cons]
          omega
        rw [← place, ih _ shorter behind rfl, splitBefore_cons, if_neg other]
        simp only [List.append_assoc, List.singleton_append]

/-- Behind a place the text goes on to the next markup or to the end. -/
theorem findMarkup_getD (whole : buffer.text = before ++ rest) :
    (buffer.findMarkup (size before)).getD buffer.bytes.length =
      size (before ++ (splitBefore startsMarkup rest).1) := by
  rw [findMarkup_text whole]
  split
  next ended =>
    have all := splitBefore_append startsMarkup rest
    rw [ended, List.append_nil] at all
    rw [all, size_append]
    exact length_bytes whole
  next found => rfl

/-- The part up to the next markup is the text in front of it. -/
theorem slice_following (whole : buffer.text = before ++ rest) :
    buffer.slice (size before) ((buffer.findMarkup (size before)).getD buffer.bytes.length) =
      .ok (splitBefore startsMarkup rest).1 := by
  have cut := splitBefore_append startsMarkup rest
  rw [findMarkup_getD whole]
  rw [← cut, ← List.append_assoc] at whole
  exact slice_text whole

end Buffer

/-! ### Turns -/

/-- A turn of the scan of a text, with the place where the next one starts instead of its text. -/
def Turn.move : Turn Char → Move
  | .finished => .finished
  | .skipped after => .skipped after.offset
  | .found tag after => .found tag after.offset

theorem isPrefixOf_commentEnd (text : Text) :
    commentEnd.isPrefixOf text = startsCommentEnd text := by
  rw [Bool.eq_iff_iff, List.isPrefixOf_iff_prefix, startsCommentEnd_iff]
  constructor
  · rintro ⟨after, rfl⟩
    exact ⟨after, rfl⟩
  · rintro ⟨after, rfl⟩
    exact ⟨after, rfl⟩

theorem findPiece_commentEnd (text : Text) :
    findPiece commentEnd text =
      if (splitBefore startsCommentEnd text).2 = [] then none
      else some (size (splitBefore startsCommentEnd text).1) := by
  induction text with
  | nil => rfl
  | cons c text ih =>
    rw [findPiece, isPrefixOf_commentEnd, splitBefore_cons, ih]
    split
    · simp
    · split
      · simp
      · simp

namespace Buffer

variable {buffer : Buffer} {before rest : Text}

theorem readTag_text {a : Char} (letter : isLetter a = true)
    (whole : buffer.text = before ++ '<' :: a :: rest) :
    buffer.readTag (size before) = .ok (Scanner.turn ⟨'<' :: a :: rest, size before⟩).move := by
  have starts : startsMarkup ('<' :: a :: rest) = true :=
    startsMarkup_iff.mpr ⟨a, rest, rfl, .inl letter⟩
  rw [Scanner.turn_markup starts, Construct.read?_tag letter]
  -- The name stands behind the `<`, and what follows the name behind both.
  have named : buffer.text = (before ++ ['<']) ++ (a :: rest) := whole.trans (List.append_cons ..)
  have place := size_append_ascii before (by decide : '<'.toNat < 128)
  have passed := passWhile_text agree_isTagNameUnit named
  have parts := (a :: rest).takeWhile_append_dropWhile (p := isTagNameUnit)
  generalize (a :: rest).takeWhile isTagNameUnit = name at passed parts ⊢
  generalize (a :: rest).dropWhile isTagNameUnit = tail at parts ⊢
  rw [← parts, ← List.append_assoc] at named
  have ends := findTagEnd_text named
  rw [readTag, ← place, passed, Except.ok_bind, ends]
  cases cut : splitTagEnd tail with
  | none => rfl
  | some parts =>
    obtain ⟨attributes, after⟩ := parts
    obtain ⟨close, rfl, closes, -⟩ := splitTagEnd_eq_some_iff.mp cut
    rw [is_iff] at closes
    subst closes
    have behind : buffer.text = (before ++ ['<'] ++ name ++ attributes ++ ['>']) ++ after := by
      rw [named]
      simp
    have next := size_append_ascii (before ++ ['<'] ++ name ++ attributes)
      (by decide : '>'.toNat < 128)
    have total : size (before ++ ['<'] ++ name ++ attributes ++ ['>']) =
        size before + (Construct.tag name attributes).size := by
      have left : size ['<'] = 1 := rfl
      have right : size ['>'] = 1 := rfl
      simp only [size_append, left, right, Construct.size]
      omega
    -- The three texts of the tag stand one behind the other between these places.
    have nameSlice := slice_text named
    have attributesSlice := slice_text (by rw [named, List.append_assoc _ attributes] :
      buffer.text = (before ++ ['<'] ++ name) ++ attributes ++ '>' :: after)
    rw [Option.map_some]
    dsimp only
    rw [nameSlice, Except.ok_bind, attributesSlice, Except.ok_bind, ← next,
      slice_following behind, Except.ok_bind, total]
    rfl

/-- A comment is searched for its end from behind `<!`. -/
theorem readMarkup_comment (whole : buffer.text = before ++ '<' :: '!' :: '-' :: '-' :: rest) :
    buffer.readMarkup (size before) =
      .ok (Scanner.turn ⟨'<' :: '!' :: '-' :: '-' :: rest, size before⟩).move := by
  have inside : buffer.text = (before ++ ['<', '!']) ++ '-' :: '-' :: rest := by
    rw [whole, List.append_assoc]
    rfl
  have place : size before + 2 = size (before ++ ['<', '!']) := by
    rw [size_append]
    rfl
  rw [readMarkup, slice_rest whole, Except.ok_bind, if_pos (by rfl), place, slice_rest inside,
    Except.ok_bind, findPiece_commentEnd, ← place, Scanner.turn_markup (by rfl),
    Construct.read?_comment]
  cases splitBefore startsCommentEnd ('-' :: '-' :: rest) with
  | mk inner marks =>
    cases marks with
    | nil => rfl
    | cons mark marks =>
      have total : size before + 2 + size inner + size commentEnd =
          size before + (Construct.comment inner).size := by
        have marks : size commentEnd = 3 := by decide
        rw [Construct.size, marks]
        omega
      rw [if_neg (by simp)]
      dsimp only
      rw [total]
      rfl

/-- What starts no comment is told apart by its second character. -/
theorem readMarkup_of_not_comment {a : Char} (other : ¬ ['!', '-', '-'] <+: a :: rest)
    (whole : buffer.text = before ++ '<' :: a :: rest) :
    buffer.readMarkup (size before) =
      if isLetter a then buffer.readTag (size before)
      else
        match splitAt? (is '>') (a :: rest) with
        | some (body, _) => .ok (.skipped (size (before ++ ['<'] ++ body) + 1))
        | none => .ok .finished := by
  have uncommented : ¬ commentStart.isPrefixOf ('<' :: a :: rest) = true := by
    rw [List.isPrefixOf_iff_prefix]
    exact fun comment => other ((List.prefix_cons_inj '<').mp comment)
  have named : buffer.text = (before ++ ['<']) ++ a :: rest := whole.trans (List.append_cons ..)
  have place := size_append_ascii before (by decide : '<'.toNat < 128)
  obtain ⟨byte, member, mark⟩ := byteAt_text named
  rw [readMarkup, slice_rest whole, Except.ok_bind, if_neg uncommented, ← place, mark,
    Except.ok_bind, agree_isLetter a byte member, findByte_text (by decide) named]
  cases splitAt? (is '>') (a :: rest) with
  | none => rfl
  | some parts => rfl

theorem readMarkup_text {a : Char} (starts : startsMarkup ('<' :: a :: rest) = true)
    (whole : buffer.text = before ++ '<' :: a :: rest) :
    buffer.readMarkup (size before) =
      .ok (Scanner.turn ⟨'<' :: a :: rest, size before⟩).move := by
  by_cases comment : ['!', '-', '-'] <+: a :: rest
  · obtain ⟨more, equal⟩ := comment
    simp only [List.cons_append, List.nil_append, List.cons.injEq] at equal
    obtain ⟨rfl, rfl⟩ := equal
    exact readMarkup_comment whole
  · rw [readMarkup_of_not_comment comment whole]
    split
    next letter => exact readTag_text letter whole
    next noLetter =>
      -- What is neither a comment nor a tag ends at the first `>` behind its `<`.
      obtain ⟨_, _, equal, opens⟩ := startsMarkup_iff.mp starts
      simp only [List.cons.injEq, true_and] at equal
      obtain ⟨rfl, rfl⟩ := equal
      have mark : a = '/' ∨ a = '?' ∨ a = '!' := by
        rcases opens.resolve_left noLetter with slash | bang | question
        · exact .inl slash
        · exact .inr (.inr bang)
        · exact .inr (.inl question)
      rw [Scanner.turn_markup starts, Construct.read?_directive mark comment]
      cases splitAt? (is '>') (a :: rest) with
      | none => rfl
      | some parts =>
        have total : size (before ++ ['<'] ++ parts.1) + 1 =
            size before + (Construct.directive parts.1 : Construct Char).size := by
          have left : size ['<'] = 1 := rfl
          simp only [size_append, left, Construct.size]
          omega
        dsimp only
        rw [total]
        rfl

/-- A turn of the buffer is a turn of the scan of the text behind the place. -/
theorem turn_text (whole : buffer.text = before ++ rest) :
    buffer.turn (size before) = .ok (Scanner.turn ⟨rest, size before⟩).move := by
  rw [turn, findMarkup_text whole]
  cases cut : splitBefore startsMarkup rest with
  | mk plain markup =>
    obtain ⟨rfl, fails, found⟩ := splitBefore_eq_iff.mp cut
    rw [Scanner.turn_text fails]
    split
    next start equal =>
      by_cases ended : markup = []
      · rw [if_pos ended] at equal
        cases equal
      · rw [if_neg ended] at equal
        cases equal
        obtain ⟨a, rest, rfl, -⟩ := startsMarkup_iff.mp (found ended)
        rw [← size_append]
        exact readMarkup_text (found ended) (by rw [whole, List.append_assoc])
    next equal =>
      by_cases ended : markup = []
      · subst ended
        rfl
      · rw [if_neg ended] at equal
        cases equal

/-! ### Tags -/

theorem tags_of_finished {place : Nat} (went : buffer.turn place = .ok .finished) :
    buffer.tags place = .ok [] := by
  rw [tags.eq_def]
  split <;> simp_all

theorem tags_of_skipped {place next : Nat} (went : buffer.turn place = .ok (.skipped next)) :
    buffer.tags place = buffer.tags next := by
  rw [tags.eq_def]
  split <;> simp_all

theorem tags_of_found {place next : Nat} {tag : Tag Char}
    (went : buffer.turn place = .ok (.found tag next)) :
    buffer.tags place = (do
      let others ← buffer.tags next
      return tag :: others) := by
  rw [tags.eq_def]
  split <;> simp_all

/-- The scan of a buffer fails nowhere, and reports the tags of the text behind its place. -/
theorem tags_text (whole : buffer.text = before ++ rest) :
    buffer.tags (size before) = .ok (Scanner.tags ⟨rest, size before⟩) := by
  induction length : rest.length using Nat.strongRecOn generalizing before rest with
  | ind bound ih =>
    subst length
    have moved := turn_text whole
    -- What a turn leaves is shorter, and its place is the size of what stands before it.
    have later : ∀ after : Scanner Char,
        (Scanner.turn ⟨rest, size before⟩ = .skipped after ∨
          ∃ tag, Scanner.turn ⟨rest, size before⟩ = .found tag after) →
        buffer.tags after.offset = .ok after.tags := by
      intro after went
      obtain ⟨taken, equal, offset⟩ := Scanner.exists_of_turn went
      have shorter := Scanner.turn_shorter went
      have place : after.offset = size (before ++ taken) := by rw [offset, size_append]
      have behind : buffer.text = (before ++ taken) ++ after.rest := by
        rw [whole, List.append_assoc]
        exact congrArg (before ++ ·) equal
      have others := ih _ shorter behind rfl
      rwa [← place] at others
    cases went : Scanner.turn ⟨rest, size before⟩ with
    | finished =>
      rw [went] at moved
      rw [tags_of_finished moved, Scanner.tags_of_finished went]
    | skipped after =>
      rw [went] at moved
      rw [tags_of_skipped moved, Scanner.tags_of_skipped went]
      exact later after (.inl went)
    | found tag after =>
      rw [went] at moved
      rw [tags_of_found moved, Scanner.tags_of_found went, later after (.inr ⟨tag, went⟩)]
      rfl

theorem tags_of (text : Text) : (of text).tags 0 = .ok (KeyHarvest.tags text) := by
  have whole : (of text).text = [] ++ text := rfl
  exact tags_text whole

end Buffer
end KeyHarvest
