import Reckoner.CommandLine.Arguments
import Reckoner.Proofs.Token.Name

/-! Definitions among the arguments. Blanks around a name and a value do not count, and it does not
matter how the option is spelt: the arguments are read as the trimmed names with their values, in
the order in which they stand. -/

namespace Reckoner

lemma Text.exists_trim (cs : List Char) : ∃ front back, cs = front ++ trim cs ++ back ∧
    (∀ c ∈ front, isBlank c) ∧ ∀ c ∈ back, isBlank c := by
  have hfront := List.takeWhile_append_dropWhile (p := isBlank) (l := cs)
  have hback := List.takeWhile_append_dropWhile (p := isBlank) (l := (cs.dropWhile isBlank).reverse)
  refine ⟨cs.takeWhile isBlank, ((cs.dropWhile isBlank).reverse.takeWhile isBlank).reverse, ?_,
    Lexeme.mem_takeWhile isBlank cs, ?_⟩
  · rw [trim, List.append_assoc, ← List.reverse_append, hback, List.reverse_reverse, hfront]
  · intro c hc
    exact Lexeme.mem_takeWhile isBlank _ c (List.mem_reverse.mp hc)

namespace CommandLine

/-- How the option of a definition is spelt, and whether the text of the definition belongs to the
argument of the option. -/
inductive Spelling
  | letter
  | letterText
  | word
  | wordText

def Spelling.arguments (text : String) : Spelling → List String
  | letter => ["-D", text]
  | letterText => ["-D" ++ text]
  | word => ["--define", text]
  | wordText => ["--define=" ++ text]

/-- A definition as it stands in the arguments. Its name and its value may have blanks around them,
without which the one is an identifier and the other a number. -/
structure WrittenDefinition where
  spelling : Spelling
  name : String
  value : String
  number : Float
  isIdentifier : Lexeme.isIdentifier (String.ofList (Text.trim name.toList))
  reads : Numeral.read (String.ofList (Text.trim value.toList)) = .ok number

namespace WrittenDefinition

def text (w : WrittenDefinition) : String := w.name ++ "=" ++ w.value

def arguments (w : WrittenDefinition) : List String := w.spelling.arguments w.text

def definition (w : WrittenDefinition) : Definition :=
  ⟨String.ofList (Text.trim w.name.toList), w.number⟩

variable {c : Char}

lemma blank_or_word (w : WrittenDefinition) (h : c ∈ w.name.toList) :
    Text.isBlank c ∨ Lexeme.isWordChar c := by
  obtain ⟨front, back, hsplit, hfront, hback⟩ := Text.exists_trim w.name.toList
  obtain ⟨d, tail, htrim, hd, htail⟩ :=
    Lexeme.spells_identifier_iff.mp (Lexeme.isIdentifier_iff_spells.mp w.isIdentifier)
  rw [String.toList_ofList] at htrim
  rw [hsplit, htrim, List.mem_append, List.mem_append, List.mem_cons] at h
  rcases h with (h | rfl | h) | h
  · exact .inl (hfront c h)
  · exact .inr (Lexeme.isWordChar_iff.mpr ((Lexeme.isLetter_iff.mp hd).imp_right .inr))
  · exact .inr (htail c h)
  · exact .inl (hback c h)

lemma equals_notMem_name (w : WrittenDefinition) : '=' ∉ w.name.toList :=
  fun h => absurd (w.blank_or_word h) (by decide)

/-- The text begins with its name, so it is taken neither for an option nor for an equals sign with
a text behind it. -/
lemma exists_text_cons (w : WrittenDefinition) :
    ∃ c cs, w.text.toList = c :: cs ∧ c ≠ '-' ∧ c ≠ '=' := by
  cases hname : w.name.toList with
  | nil => exact absurd w.isIdentifier (by rw [hname]; decide)
  | cons c cs =>
    have hc := w.blank_or_word (c := c) (by simp [hname])
    refine ⟨c, cs ++ '=' :: w.value.toList, by simp [text, hname], ?_, ?_⟩
    · rintro rfl
      exact absurd hc (by decide)
    · rintro rfl
      exact absurd hc (by decide)

lemma text_ne_dashes (w : WrittenDefinition) : w.text ≠ "--" := by
  obtain ⟨c, cs, htext, hc, -⟩ := w.exists_text_cons
  intro h
  rw [h] at htext
  exact hc (List.cons.inj htext).1.symm

lemma parse_text (w : WrittenDefinition) : Definition.parse w.text = .ok w.definition := by
  have hname : ∀ c ∈ w.name.toList, (c != '=') = true := by
    intro c hc
    simpa using ne_of_mem_of_not_mem hc w.equals_notMem_name
  have hchars : w.text.toList = w.name.toList ++ '=' :: w.value.toList := by simp [text]
  simp [Definition.parse, hchars, List.dropWhile_append_of_pos hname,
    List.takeWhile_append_of_pos hname, w.reads, definition]

end WrittenDefinition

namespace Reading

variable {r r' : Reading} {showsPostfix : Bool} {ds : List Definition} {s : String}

/-- What is read of the options of a script. -/
def script (showsPostfix : Bool) (ds : List Definition) : Reading where
  readsFile := true
  showsPostfix := showsPostfix
  definitions := ds.toArray

/-- The last definition may still be pending. -/
structure IsScript (r : Reading) (showsPostfix : Bool) (ds : List Definition) : Prop where
  settle : r.settle = .ok (script showsPostfix ds)
  contents : r.contents = none

lemma isScript_script : (script showsPostfix ds).IsScript showsPostfix ds := ⟨rfl, rfl⟩

lemma define_script (w : WrittenDefinition) :
    (script showsPostfix ds).define w.text = .ok (script showsPostfix (ds ++ [w.definition])) := by
  simp [define, w.parse_text, script]

lemma isScript_pending (w : WrittenDefinition) :
    { script showsPostfix ds with pending := .text w.text }.IsScript showsPostfix
      (ds ++ [w.definition]) :=
  ⟨define_script w, rfl⟩

lemma argument_awaited (hpending : r.pending = .awaitingText) (w : WrittenDefinition) :
    r.argument w.text = .ok { r with pending := .text w.text } := by
  obtain ⟨c, cs, htext, hdash, -⟩ := w.exists_text_cons
  rw [argument, htext, hpending]
  split
  next heq => exact absurd (List.cons.inj heq).1 hdash
  next heq => exact absurd (List.cons.inj heq).1 hdash
  next => rfl
  next hawaited => exact absurd rfl hawaited

lemma arguments_cons (hs : s ≠ "--") (h : r.argument s = .ok r') (rest : List String) :
    r.arguments (s :: rest) = r'.arguments rest := by
  rw [arguments, if_neg hs, h]
  rfl

lemma attachedText_cons {c : Char} (h : c ≠ '=') (cs : List Char) :
    attachedText (c :: cs) = some (String.ofList (c :: cs)) := by
  unfold attachedText
  split
  next => contradiction
  next heq => exact absurd (List.cons.inj heq).1 h
  next => rfl

lemma argument_letterText (r : Reading) (w : WrittenDefinition) :
    r.argument ("-D" ++ w.text) = r.defineOption (some w.text) := by
  obtain ⟨c, cs, htext, -, hequals⟩ := w.exists_text_cons
  have hchars : ("-D" ++ w.text).toList = '-' :: 'D' :: c :: cs := by simp [htext]
  have hattached : attachedText (c :: cs) = some w.text := by
    rw [attachedText_cons hequals, ← htext, String.ofList_toList]
  rw [argument, hchars]
  exact congrArg r.defineOption hattached

lemma argument_wordText (r : Reading) (text : String) :
    r.argument ("--define=" ++ text) = r.defineOption (some text) := by
  have hchars : ("--define=" ++ text).toList =
      '-' :: '-' :: ("define".toList ++ '=' :: text.toList) := by simp
  rw [argument, hchars]
  simp [word]

/-- The arguments lead to the definitions, whatever stands behind them. -/
def Takes (r : Reading) (args : List String) (showsPostfix : Bool) (ds : List Definition) : Prop :=
  ∃ r' : Reading, r'.IsScript showsPostfix ds ∧
    ∀ rest, r.arguments (args ++ rest) = r'.arguments rest

namespace IsScript

variable {argument : String} (h : r.IsScript showsPostfix ds) (w : WrittenDefinition)
include h

lemma takes_apart (hne : argument ≠ "--") (hargument : r.argument argument = r.defineOption none) :
    r.Takes [argument, w.text] showsPostfix (ds ++ [w.definition]) := by
  have hawaited : r.defineOption none =
      .ok { script showsPostfix ds with pending := .awaitingText } := by
    rw [defineOption, h.settle]
    rfl
  refine ⟨_, isScript_pending w, fun rest => ?_⟩
  exact (arguments_cons hne (hargument.trans hawaited) _).trans
    (arguments_cons w.text_ne_dashes (argument_awaited rfl w) _)

lemma takes_joined (hne : argument ≠ "--")
    (hargument : r.argument argument = r.defineOption (some w.text)) :
    r.Takes [argument] showsPostfix (ds ++ [w.definition]) := by
  have hdefined : r.defineOption (some w.text) = .ok (script showsPostfix (ds ++ [w.definition])) := by
    rw [defineOption, h.settle]
    exact define_script w
  exact ⟨_, isScript_script, arguments_cons hne (hargument.trans hdefined)⟩

lemma takes_definition : r.Takes w.arguments showsPostfix (ds ++ [w.definition]) := by
  rw [WrittenDefinition.arguments]
  cases w.spelling with
  | letter => exact h.takes_apart w (by decide) rfl
  | letterText =>
    exact h.takes_joined w (ne_of_apply_ne String.toList (by simp)) (argument_letterText r w)
  | word => exact h.takes_apart w (by decide) rfl
  | wordText =>
    exact h.takes_joined w (ne_of_apply_ne String.toList (by simp)) (argument_wordText r w.text)

lemma takes_definitions (ws : List WrittenDefinition) :
    r.Takes (ws.flatMap (·.arguments)) showsPostfix (ds ++ ws.map (·.definition)) := by
  induction ws generalizing r ds with
  | nil => exact ⟨r, by simpa using h, fun _ => rfl⟩
  | cons w ws ih =>
    obtain ⟨r', hr', hw⟩ := h.takes_definition w
    obtain ⟨r'', hr'', hws⟩ := ih hr'
    refine ⟨r'', by simpa using hr'', fun rest => ?_⟩
    rw [List.flatMap_cons, List.append_assoc, hw, hws]

lemma arguments_name (name : String) :
    r.arguments ["--", name] = .ok { script showsPostfix ds with contents := some name } := by
  rw [Reading.arguments, if_pos rfl, List.foldlM_cons, operand, h.contents, h.settle]
  rfl

end IsScript

end Reading

/-- The arguments that run a script from a file. -/
def scriptArguments (ws : List WrittenDefinition) (showsPostfix : Bool) (name : String) :
    List String :=
  "--file" :: (if showsPostfix then ["--rpn"] else []) ++ ws.flatMap (·.arguments) ++ ["--", name]

lemma parse_scriptArguments (ws : List WrittenDefinition) (showsPostfix : Bool) (name : String) :
    Arguments.parse (scriptArguments ws showsPostfix name) =
      .ok ⟨true, showsPostfix, false, ws.map (·.definition), name⟩ := by
  have hflags (rest : List String) : ({} : Reading).arguments
      ("--file" :: (if showsPostfix then ["--rpn"] else []) ++ rest) =
        (Reading.script showsPostfix []).arguments rest := by
    cases showsPostfix <;> rfl
  obtain ⟨r, hr, hdefinitions⟩ := Reading.isScript_script.takes_definitions ws
  rw [Arguments.parse, scriptArguments, List.append_assoc, hflags, hdefinitions, hr.arguments_name]
  rfl

end CommandLine

end Reckoner
