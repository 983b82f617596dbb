import Compositor.Proofs.Token.Progress

/-!
# Line ends

Texts which differ in nothing but the way their lines end are read alike. What counts is the stripped line: a character of
the line is added to it in the same way whatever follows, blanks and carriage returns at the end of the line add nothing, and
a line feed at the end of the text adds no line. So a tokenizer starts from the same lines, and all of its calls agree.

* `stripped` is a line without its end, `stripped_cons` and `stripped_ending` say how it is made up;
* `Respelled` relates two texts with the same lines, in any combination of line ends;
* `withReturns`, `Padded` and a line feed at the end are cases of it.
-/

namespace Compositor

namespace Tokenizer

variable {cs cs' : List Char} {c : Char}

/-! ## Lines without their ends -/

/-- A line without the blanks and line ends at its end. -/
def stripped (line : List Char) : List Char :=
  Text.dropTail (· == ' ') (Text.dropTail (fun c => c == '\r' || c == '\n') line)

/-- Blanks and carriage returns which may stand before a line feed. -/
def ending (blanks returns : Nat) : List Char := List.replicate blanks ' ' ++ List.replicate returns '\r'

/-- A character is a part of the line unless it is a blank before the end. -/
theorem stripped_cons (hreturn : c ≠ '\r') (hfeed : c ≠ '\n') (line : List Char) :
    stripped (c :: line) = if stripped line = [] ∧ c = ' ' then [] else c :: stripped line := by
  have hinner : Text.dropTail (fun c => c == '\r' || c == '\n') (c :: line) =
      c :: Text.dropTail (fun c => c == '\r' || c == '\n') line := by
    rw [Text.dropTail_cons, if_neg]
    simp [hreturn, hfeed]
  rw [stripped, hinner, Text.dropTail_cons]
  by_cases hc : c = ' ' <;> simp [stripped, hc]

/-- The end of a line is no part of it. -/
theorem stripped_ending (blanks returns : Nat) : stripped (ending blanks returns) = [] := by
  have hreturns : Text.dropTail (fun c => c == '\r' || c == '\n') (ending blanks returns) =
      Text.dropTail (fun c => c == '\r' || c == '\n') (List.replicate blanks ' ') := by
    induction returns with
    | zero => rw [ending, List.replicate_zero, List.append_nil]
    | succ returns ih =>
      rw [ending, List.replicate_succ', ← List.append_assoc, Text.dropTail_append_of_pos _ rfl, ← ending, ih]
  rw [stripped, hreturns, Text.dropTail_eq_nil]
  intro c hc
  have hmem := (Text.dropTail_sublist _ _).subset hc
  rw [List.eq_of_mem_replicate hmem]
  rfl

theorem feed_notMem_ending (blanks returns : Nat) : '\n' ∉ ending blanks returns := by
  simp [ending, List.mem_replicate]

/-- The first line of a text ends at its first line feed. -/
theorem splitLines_line {line : List Char} (hline : '\n' ∉ line) (cs : List Char) :
    splitLines (line ++ '\n' :: cs) = line :: splitLines cs := by
  induction line with
  | nil => rfl
  | cons c line ih =>
    rw [List.mem_cons, not_or] at hline
    rw [List.cons_append, splitLines_cons (Ne.symm hline.1), ih hline.2]
    rfl

/-- The last line of a text needs no line feed, unless it is empty. -/
theorem splitLines_last {line : List Char} (hline : '\n' ∉ line) (hne : line ≠ []) : splitLines line = [line] := by
  induction line with
  | nil => exact absurd rfl hne
  | cons c line ih =>
    rw [List.mem_cons, not_or] at hline
    rw [splitLines_cons (Ne.symm hline.1)]
    cases line with
    | nil => rfl
    | cons d line =>
      rw [ih hline.2 (List.cons_ne_nil d line)]
      rfl

/-! ## Texts with the same lines -/

/-- The texts differ in the ends of their lines only. -/
inductive Respelled : List Char → List Char → Prop where
  | nil : Respelled [] []
  | char {cs cs' : List Char} {c : Char} (hreturn : c ≠ '\r') (hfeed : c ≠ '\n') (h : Respelled cs cs') :
      Respelled (c :: cs) (c :: cs')
  | feed {cs cs' : List Char} (blanks returns : Nat) (h : Respelled cs cs') :
      Respelled ('\n' :: cs) (ending blanks returns ++ '\n' :: cs')
  /-- Where the text has no line feed at its end, the last character is one of its last line. -/
  | last {c : Char} (hreturn : c ≠ '\r') (hfeed : c ≠ '\n') (blanks returns : Nat) : Respelled [c] (c :: ending blanks returns)
  | lastFeed {c : Char} (hreturn : c ≠ '\r') (hfeed : c ≠ '\n') (blanks returns : Nat) :
      Respelled [c] (c :: (ending blanks returns ++ ['\n']))

theorem Respelled.stripped_eq (h : Respelled cs cs') : (splitLines cs').map stripped = (splitLines cs).map stripped := by
  have hlast : ∀ {c : Char}, c ≠ '\r' → c ≠ '\n' → ∀ blanks returns, stripped (c :: ending blanks returns) = stripped [c] := by
    intro c hreturn hfeed blanks returns
    rw [stripped_cons hreturn hfeed, stripped_cons hreturn hfeed, stripped_ending]
    rfl
  have hline : ∀ {c : Char}, c ≠ '\n' → ∀ blanks returns, '\n' ∉ c :: ending blanks returns := by
    intro c hfeed blanks returns hmem
    rcases List.mem_cons.1 hmem with hc | hending
    · exact hfeed hc.symm
    · exact feed_notMem_ending blanks returns hending
  induction h with
  | nil => rfl
  | @char cs cs' c hreturn hfeed _ ih =>
    have hhead := congrArg (fun lines => lines.head?.getD []) ih
    have htail := congrArg List.tail ih
    have hpiece : ∀ lines : List (List Char), stripped (lines.head?.getD []) = (lines.map stripped).head?.getD [] := by
      intro lines
      cases lines <;> rfl
    rw [splitLines_cons hfeed, splitLines_cons hfeed, List.map_cons, List.map_cons, stripped_cons hreturn hfeed,
      stripped_cons hreturn hfeed, hpiece, hpiece, List.map_tail, List.map_tail, htail]
    simp only [hhead]
  | feed blanks returns _ ih =>
    rw [splitLines_line (feed_notMem_ending blanks returns), splitLines_feed, List.map_cons, List.map_cons, ih,
      stripped_ending]
    rfl
  | last hreturn hfeed blanks returns =>
    rw [splitLines_last (hline hfeed blanks returns) (List.cons_ne_nil _ _), List.map_singleton, hlast hreturn hfeed,
      splitLines_cons hfeed]
    rfl
  | lastFeed hreturn hfeed blanks returns =>
    rw [← List.cons_append, splitLines_line (hline hfeed blanks returns), List.map_cons, hlast hreturn hfeed,
      splitLines_cons hfeed]
    rfl

/-- **Texts with the same lines are the same to a tokenizer.** -/
theorem Respelled.ofText_eq {text text' : String} (h : Respelled text.toList text'.toList) (source : String) :
    ofText text' source = ofText text source := by
  have hnormal : ∀ lines : List (List Char), lines.map normalizeLine = (lines.map stripped).map (· ++ [endLineChar]) := by
    intro lines
    rw [List.map_map]
    rfl
  rw [ofText, ofText, hnormal, hnormal, h.stripped_eq]

/-! ## Ways to respell a text -/

/-- The text with a carriage return before each line feed. -/
def withReturns (text : String) : String :=
  String.ofList (text.toList.flatMap fun c => if c = '\n' then ['\r', '\n'] else [c])

/-- Blanks may be put before a line feed, and to the end of a text whose last line is not empty. -/
inductive Padded : List Char → List Char → Prop where
  | nil : Padded [] []
  | char {cs cs' : List Char} {c : Char} (hc : c ≠ '\n') (h : Padded cs cs') : Padded (c :: cs) (c :: cs')
  | feed {cs cs' : List Char} (blanks : Nat) (h : Padded cs cs') :
      Padded ('\n' :: cs) (List.replicate blanks ' ' ++ '\n' :: cs')
  | last {c : Char} (hc : c ≠ '\n') (blanks : Nat) : Padded [c] (c :: List.replicate blanks ' ')

theorem respelled_returns (hcs : '\r' ∉ cs) :
    Respelled cs (cs.flatMap fun c => if c = '\n' then ['\r', '\n'] else [c]) := by
  induction cs with
  | nil => exact .nil
  | cons c cs ih =>
    rw [List.mem_cons, not_or] at hcs
    rw [List.flatMap_cons]
    by_cases hc : c = '\n'
    · subst hc
      exact .feed 0 1 (ih hcs.2)
    · rw [if_neg hc]
      exact .char (Ne.symm hcs.1) hc (ih hcs.2)

theorem Padded.respelled (h : Padded cs cs') (hcs : '\r' ∉ cs) : Respelled cs cs' := by
  have hending : ∀ blanks, List.replicate blanks ' ' = ending blanks 0 := fun blanks => (List.append_nil _).symm
  induction h with
  | nil => exact .nil
  | char hc _ ih =>
    rw [List.mem_cons, not_or] at hcs
    exact .char (Ne.symm hcs.1) hc (ih hcs.2)
  | feed blanks _ ih =>
    rw [hending]
    exact .feed blanks 0 (ih fun hmem => hcs (List.mem_cons_of_mem _ hmem))
  | last hc blanks =>
    rw [List.mem_singleton] at hcs
    rw [hending]
    exact .last (Ne.symm hcs) hc blanks 0

theorem respelled_append_feed (hcs : '\r' ∉ cs) (hlast : cs.getLast? = some c) (hc : c ≠ '\n') :
    Respelled cs (cs ++ ['\n']) := by
  induction cs with
  | nil => cases hlast
  | cons d cs ih =>
    rw [List.mem_cons, not_or] at hcs
    cases cs with
    | nil =>
      obtain rfl : d = c := by simpa using hlast
      exact .lastFeed (Ne.symm hcs.1) hc 0 0
    | cons e cs =>
      rw [List.getLast?_cons_cons] at hlast
      have hrest := ih hcs.2 hlast
      by_cases hd : d = '\n'
      · subst hd
        exact .feed 0 0 hrest
      · exact .char (Ne.symm hcs.1) hd hrest

end Tokenizer

/-! ## The main statement -/

open Tokenizer in
/-- **The ends of lines do not matter.** A text without carriage returns is delivered in the same way, with the same positions
and whatever the scopes are in each of the calls, if its lines end with a carriage return and a line feed instead, if there are
further blanks at the ends of its lines, or if a last line without a line feed gets one. -/
theorem line_ends_alike {text : String} (htext : '\r' ∉ text.toList) (source : String) (schedule : List Call → Lexicon)
    (n : Nat) :
    let delivered (text : String) := ((ofText text source).session schedule n).calls
    delivered (withReturns text) = delivered text ∧
    (∀ text', Padded text.toList text'.toList → delivered text' = delivered text) ∧
    (∀ c, text.toList.getLast? = some c → c ≠ '\n' → delivered (text.push '\n') = delivered text) := by
  intro delivered
  have hrespelled : ∀ text', Respelled text.toList text'.toList → delivered text' = delivered text := by
    intro text' h
    simp only [delivered, h.ofText_eq source]
  refine ⟨hrespelled _ ?_, fun text' hpadded => hrespelled text' (hpadded.respelled htext), fun c hlast hc => hrespelled _ ?_⟩
  · rw [withReturns, String.toList_ofList]
    exact respelled_returns htext
  · rw [String.toList_push]
    exact respelled_append_feed htext hlast hc

open Tokenizer in
theorem line_ends_alike_two_lines :
    let schedule (calls : List Call) : Lexicon :=
      ⟨fun c => if c = endLineChar then .endLine else if calls.isEmpty then .letter else .other, ""⟩
    let delivered (text : String) := ((ofText text "text").session schedule 5).calls
    '\r' ∉ "x\ny".toList ∧ delivered "x\r\ny" = delivered "x\ny" ∧ delivered "x  \ny " = delivered "x\ny" ∧
      delivered "x\ny\n" = delivered "x\ny" := by
  intro schedule delivered
  have htext : '\r' ∉ "x\ny".toList := by decide
  obtain ⟨hreturns, hblanks, hfeed⟩ := line_ends_alike htext "text" schedule 5
  have hpadded : Padded "x\ny".toList "x  \ny ".toList :=
    .char (c := 'x') (by decide) (.feed 2 (.last (c := 'y') (by decide) 1))
  exact ⟨htext, hreturns, hblanks _ hpadded, hfeed 'y' rfl (by decide)⟩

end Compositor
