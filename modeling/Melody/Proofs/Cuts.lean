import Mathlib.Data.String.Basic
import Melody.Proofs.Excerpts

/-!
# Lines cut out of a text

The lines of a text can be cut out of it by the bytes at which its line feeds stand. A cut goes wrong
if a line feed is missing, if it ends before it begins or beyond the text, or if it begins or ends
inside of a character. The cuts of lines never do, and they give the lines.

* `feeds`: the bytes of the line feeds; `getElem?_feeds`, `lineCount_eq`;
* `lineStart?`, `lineStop`: between which bytes a line is cut out; `between?`, `cutLine?`: what is
  cut out, unless that goes wrong;
* `Cuttable`: where a text can be cut; `isSome_between?_iff`, `between?_of_toList`;
* `exists_after_eq`: every line begins at a place in the text; `lineStart?_of_after`,
  `lineStop_of_after`, `lineAt_of_after`: its bytes and its characters from there;
* `exists_cut`, `cutLine?_eq`: cutting gives the lines;
* **`lines_lossless`**: the lines of a text, and how they are cut out.
-/

namespace Melody.Text

open String (utf8Len)

variable {source : String} {front line rest : List Char} {start stop n : Nat}

/-- The bytes at which the line feeds among `cs` stand, the first character being at `offset`. -/
def feedsFrom : Nat → List Char → List Nat
  | _, [] => []
  | offset, c :: cs =>
    if c = '\n' then offset :: feedsFrom (offset + c.utf8Size) cs
    else feedsFrom (offset + c.utf8Size) cs

/-- The bytes at which the line feeds of a text stand. -/
def feeds (source : String) : List Nat := feedsFrom 0 source.toList

theorem feedsFrom_append (offset : Nat) (front rest : List Char) :
    feedsFrom offset (front ++ rest) =
      feedsFrom offset front ++ feedsFrom (offset + utf8Len front) rest := by
  induction front generalizing offset with
  | nil => rfl
  | cons c front ih =>
    rw [List.cons_append, feedsFrom, feedsFrom, ih, utf8Len, Nat.add_comm (utf8Len front),
      Nat.add_assoc]
    split_ifs <;> rfl

theorem length_feedsFrom (offset : Nat) (cs : List Char) :
    (feedsFrom offset cs).length = cs.count '\n' := by
  induction cs generalizing offset with
  | nil => rfl
  | cons c cs ih =>
    rw [feedsFrom, List.count_cons]
    by_cases hc : c = '\n' <;> simp [hc, ih]

/-- **The byte of a line feed** is the number of bytes before it. -/
theorem getElem?_feeds (h : source.toList = front ++ '\n' :: rest) :
    (feeds source)[front.count '\n']? = some (utf8Len front) := by
  rw [feeds, h, feedsFrom_append, List.getElem?_append_right (length_feedsFrom 0 front).le,
    length_feedsFrom, Nat.sub_self, feedsFrom, if_pos rfl, List.getElem?_cons_zero, Nat.zero_add]

example : feeds "é\n\nb" = [2, 3] := by decide

theorem lineCount_eq (source : String) : lineCount source = (feeds source).length + 1 := by
  rw [lineCount, length_lines, feeds, length_feedsFrom]

/-! ## Cutting -/

/-- The byte at which line `n` begins: the first one, or the one behind the line feed before the
line, if the text has that line feed. -/
def lineStart? (source : String) : Nat → Option Nat
  | 0 => none
  | 1 => some 0
  | n + 2 => (feeds source)[n]?.map (· + 1)

/-- The byte at which line `n` ends: that of the line feed behind it, or the end of the text. -/
def lineStop (source : String) (n : Nat) : Nat := (feeds source)[n - 1]?.getD source.utf8ByteSize

/-- The text between two bytes, if it can be cut there. -/
def between? (source : String) (start stop : Nat) : Option String := do
  let first ← source.pos? ⟨start⟩
  let last ← source.pos? ⟨stop⟩
  let slice ← source.slice? first last
  return slice.copy

/-- Line `n` as it is cut out of the text, unless that goes wrong; a line outside the text is
empty. -/
def cutLine? (source : String) (n : Nat) : Option String :=
  if n = 0 ∨ (feeds source).length + 1 < n then some ""
  else do between? source (← lineStart? source n) (lineStop source n)

/-- A text can be cut between two bytes: they are in order and not beyond its end, and none of them
is inside of a character. -/
structure Cuttable (source : String) (start stop : Nat) : Prop where
  start_le_stop : start ≤ stop
  stop_le_size : stop ≤ source.utf8ByteSize
  isValid_start : String.Pos.Raw.IsValid source ⟨start⟩
  isValid_stop : String.Pos.Raw.IsValid source ⟨stop⟩

theorem pos?_offset (p : source.Pos) : source.pos? p.offset = some p := by
  simp [String.pos?, String.Slice.pos?, p.isValid, String.Slice.pos, String.Pos.ofToSlice]

theorem pos?_eq_none {p : String.Pos.Raw} (h : ¬ p.IsValid source) : source.pos? p = none := by
  simp [String.pos?, String.Slice.pos?, h]

theorem between?_offset (first last : source.Pos) :
    between? source first.offset.byteIdx last.offset.byteIdx =
      if h : first ≤ last then some (source.slice first last h).copy else none := by
  rw [between?, pos?_offset, pos?_offset]
  simp only [Option.bind_eq_bind, Option.bind_some, String.slice?]
  split_ifs <;> rfl

/-- **A cut goes wrong** where the text cannot be cut, and nowhere else. -/
theorem isSome_between?_iff : (between? source start stop).isSome ↔ Cuttable source start stop := by
  constructor
  · intro h
    by_cases hstart : String.Pos.Raw.IsValid source ⟨start⟩
    · by_cases hstop : String.Pos.Raw.IsValid source ⟨stop⟩
      · rw [between?_offset ⟨⟨start⟩, hstart⟩ ⟨⟨stop⟩, hstop⟩] at h
        split_ifs at h with hle
        · exact ⟨hle, hstop.le_utf8ByteSize, hstart, hstop⟩
        · cases h
      · simp [between?, pos?_eq_none hstop] at h
    · simp [between?, pos?_eq_none hstart] at h
  · intro h
    let first : source.Pos := ⟨⟨start⟩, h.isValid_start⟩
    let last : source.Pos := ⟨⟨stop⟩, h.isValid_stop⟩
    have hle : first ≤ last := h.start_le_stop
    have hcut := between?_offset first last
    rw [dif_pos hle] at hcut
    exact Option.isSome_of_eq_some hcut

example : between? "é" 1 2 = none := by decide

theorem between?_append (front line rest : String) :
    between? (front ++ (line ++ rest)) front.utf8ByteSize (front ++ line).utf8ByteSize =
      some line := by
  have hfirst : front.rawEndPos.IsValid (front ++ (line ++ rest)) :=
    String.Pos.Raw.isValid_iff_exists_append.mpr ⟨_, _, rfl, rfl⟩
  have hlast : (front ++ line).rawEndPos.IsValid (front ++ (line ++ rest)) :=
    String.Pos.Raw.isValid_iff_exists_append.mpr ⟨_, _, String.append_assoc.symm, rfl⟩
  have hbefore : String.Pos.Splits ⟨_, hfirst⟩ front (line ++ rest) := ⟨rfl, rfl⟩
  have hbehind : String.Pos.Splits ⟨_, hlast⟩ (front ++ line) rest :=
    ⟨String.append_assoc.symm, rfl⟩
  obtain ⟨hle, hslice⟩ := String.copy_slice_eq_iff_splits.mpr ⟨_, _, hbefore, hbehind⟩
  have hcut := between?_offset ⟨_, hfirst⟩ ⟨_, hlast⟩
  rwa [dif_pos hle, hslice] at hcut

theorem between?_of_toList (h : source.toList = front ++ (line ++ rest)) :
    between? source (utf8Len front) (utf8Len (front ++ line)) = some (String.ofList line) := by
  have hsource : source = .ofList front ++ (.ofList line ++ .ofList rest) := by
    rw [← String.ofList_append, ← String.ofList_append, ← h, String.ofList_toList]
  have hcut := between?_append (.ofList front) (.ofList line) (.ofList rest)
  rwa [← hsource, ← String.ofList_append, String.utf8ByteSize_ofList,
    String.utf8ByteSize_ofList] at hcut

/-! ## Where lines begin and end -/

theorem count_takeWhile (cs : List Char) : (cs.takeWhile (· != '\n')).count '\n' = 0 :=
  List.count_eq_zero.mpr fun hmem => by simpa using List.mem_takeWhile_imp hmem

theorem takeWhile_cases (cs : List Char) :
    ('\n' ∉ cs ∧ cs.takeWhile (· != '\n') = cs) ∨
      ∃ behind, cs = cs.takeWhile (· != '\n') ++ '\n' :: behind := by
  induction cs with
  | nil => exact .inl ⟨List.not_mem_nil, rfl⟩
  | cons c cs ih =>
    by_cases hc : c = '\n'
    · exact .inr ⟨cs, by simp [hc]⟩
    · rw [List.takeWhile_cons_of_pos (by simp [hc])]
      obtain ⟨hmem, hline⟩ | ⟨behind, hcs⟩ := ih
      · exact .inl ⟨by simp [hmem, Ne.symm hc], by rw [hline]⟩
      · exact .inr ⟨behind, by rw [List.cons_append, ← hcs]⟩

/-- **Every line of a text begins in it**, in the first column. -/
theorem exists_after_eq (hpos : 1 ≤ n) (hle : n ≤ lineCount source) :
    ∃ front rest, source.toList = front ++ rest ∧ Position.after front = ⟨n, 1⟩ := by
  induction n, hpos using Nat.le_induction with
  | base => exact ⟨[], source.toList, rfl, rfl⟩
  | succ n hpos ih =>
    obtain ⟨front, rest, htext, hafter⟩ := ih (Nat.le_of_succ_le hle)
    have hline : 1 + front.count '\n' = n := congrArg Position.line hafter
    -- the next line begins behind the line feed behind this one
    obtain ⟨hmem, -⟩ | ⟨behind, hrest⟩ := takeWhile_cases rest
    · rw [lineCount, length_lines, htext, List.count_append, List.count_eq_zero.mpr hmem] at hle
      omega
    · refine ⟨front ++ rest.takeWhile (· != '\n') ++ ['\n'], behind, by simp [htext, ← hrest], ?_⟩
      rw [Position.after, List.count_append, List.count_append, count_takeWhile,
        List.count_singleton_self, List.rtakeWhile_concat_neg _ _ _ (by simp)]
      exact congrArg₂ Position.mk (by omega) rfl

/-- What is before a first column ends with a line feed, if there is anything. -/
theorem eq_nil_or_append_of_after (h : Position.after front = ⟨n, 1⟩) :
    front = [] ∨ ∃ before, front = before ++ ['\n'] := by
  have hcolumn : 1 + (front.rtakeWhile (· != '\n')).length = 1 := congrArg Position.column h
  cases front using List.reverseRecOn with
  | nil => exact .inl rfl
  | append_singleton before c =>
    refine .inr ⟨before, ?_⟩
    by_contra hc
    rw [List.rtakeWhile_concat_pos _ _ _ (by simpa using hc), List.length_append,
      List.length_singleton] at hcolumn
    omega

section Line

variable (htext : source.toList = front ++ rest) (hafter : Position.after front = ⟨n, 1⟩)

include htext hafter

theorem lineAt_of_after : lineAt source n = .ofList (rest.takeWhile (· != '\n')) := by
  have hline := drop_lineAt_after htext
  rw [hafter] at hline
  rw [← String.toList_inj, String.toList_ofList]
  exact hline

theorem lineStart?_of_after : lineStart? source n = some (utf8Len front) := by
  have hline : 1 + front.count '\n' = n := congrArg Position.line hafter
  obtain rfl | ⟨before, rfl⟩ := eq_nil_or_append_of_after hafter
  · subst hline
    rfl
  · have hn : n = before.count '\n' + 2 := by
      rw [← hline, List.count_append, List.count_singleton_self]
      omega
    rw [List.append_assoc, List.singleton_append] at htext
    rw [hn, lineStart?, getElem?_feeds htext, String.utf8Len_append]
    rfl

theorem lineStop_of_after :
    lineStop source n = utf8Len (front ++ rest.takeWhile (· != '\n')) := by
  have hline : 1 + front.count '\n' = n := congrArg Position.line hafter
  have hcount : n - 1 = (front ++ rest.takeWhile (· != '\n')).count '\n' := by
    rw [List.count_append, count_takeWhile]
    omega
  rw [lineStop, hcount]
  obtain ⟨-, hrest⟩ | ⟨behind, hrest⟩ := takeWhile_cases rest
  · have hlast : (feeds source).length ≤ source.toList.count '\n' := (length_feedsFrom 0 _).le
    rw [hrest, ← htext, List.getElem?_eq_none hlast, Option.getD_none, String.utf8Len_toList]
  · rw [hrest, ← List.append_assoc] at htext
    rw [getElem?_feeds htext, Option.getD_some]

end Line

theorem exists_cut (hpos : 1 ≤ n) (hle : n ≤ lineCount source) :
    ∃ start, lineStart? source n = some start ∧
      between? source start (lineStop source n) = some (lineAt source n) := by
  obtain ⟨front, rest, htext, hafter⟩ := exists_after_eq hpos hle
  have hsplit : source.toList =
      front ++ (rest.takeWhile (· != '\n') ++ rest.dropWhile (· != '\n')) := by
    rw [List.takeWhile_append_dropWhile, htext]
  refine ⟨utf8Len front, lineStart?_of_after htext hafter, ?_⟩
  rw [lineStop_of_after htext hafter, lineAt_of_after htext hafter]
  exact between?_of_toList hsplit

theorem lineAt_eq_empty (h : n = 0 ∨ lineCount source < n) : lineAt source n = "" := by
  obtain rfl | h := h
  · rfl
  · have hnone : (lines source.toList)[n - 1]? = none :=
      List.getElem?_eq_none (Nat.le_sub_one_of_lt h)
    rw [lineAt, if_neg (Nat.ne_zero_of_lt h), List.getD_eq_getElem?_getD, hnone]
    rfl

/-- **Cutting gives every line**, and never goes wrong. -/
theorem cutLine?_eq (source : String) (n : Nat) : cutLine? source n = some (lineAt source n) := by
  rw [cutLine?, ← lineCount_eq]
  split_ifs with hout
  · rw [lineAt_eq_empty hout]
  · rw [not_or, not_lt] at hout
    obtain ⟨start, hstart, hcut⟩ := exists_cut (Nat.pos_of_ne_zero hout.1) hout.2
    rw [hstart]
    exact hcut

theorem map_lineAt (source : String) :
    (List.range' 1 (lineCount source)).map (lineAt source) =
      (lines source.toList).map String.ofList := by
  refine List.ext_getElem (by simp [lineCount]) fun i _ hi => ?_
  rw [List.length_map] at hi
  simp [lineAt, List.getD_eq_getElem?_getD, hi]

theorem intercalate_lineAt (source : String) :
    "\n".intercalate ((List.range' 1 (lineCount source)).map (lineAt source)) = source := by
  have hid : String.toList ∘ String.ofList = id := funext fun _ => String.toList_ofList
  rw [map_lineAt, ← String.toList_inj, String.toList_intercalate, List.map_map, hid, List.map_id]
  exact intercalate_lines _

/-- **A text is split into its lines without loss.** No line has a line feed, the lines with line
feeds between them are the text, and a line outside the text is empty. There is one line more than
there are line feeds; the bytes between which a line is cut out, found by those of the line feeds,
are in order, not beyond the end of the text and not inside of a character; so that every line is
cut out, whatever its number. -/
theorem lines_lossless (source : String) :
    (∀ n, '\n' ∉ (lineAt source n).toList) ∧
    "\n".intercalate ((List.range' 1 (lineCount source)).map (lineAt source)) = source ∧
    (∀ n, n = 0 ∨ lineCount source < n → lineAt source n = "") ∧
    lineCount source = (feeds source).length + 1 ∧
    (∀ n, 1 ≤ n → n ≤ lineCount source →
      ∃ start, lineStart? source n = some start ∧ Cuttable source start (lineStop source n)) ∧
    ∀ n, cutLine? source n = some (lineAt source n) := by
  refine ⟨fun n hmem => (mem_and_ne_of_mem_lineAt hmem).2 rfl, intercalate_lineAt source,
    fun n => lineAt_eq_empty, lineCount_eq source, fun n hpos hle => ?_, cutLine?_eq source⟩
  obtain ⟨start, hstart, hcut⟩ := exists_cut hpos hle
  exact ⟨start, hstart, isSome_between?_iff.mp (Option.isSome_of_eq_some hcut)⟩

end Melody.Text
