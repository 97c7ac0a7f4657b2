import DynamicObjects.Glob

/-!
# Matching by rows

Trying every length of every star takes time that grows with the power of the stars. Here the tokens are taken from the
last to the first, and each of them answers once for each end of the text. A *row* is such a list of answers: the whole
text comes first, the empty end last.
-/
namespace DynamicObjects.Glob

/-- The row of a token for one character, if `row` is the row of the tokens behind it. -/
def afterChar (token : Token) : List Char → List Bool → List Bool
  | c :: cs, _ :: row => (token.coversChar c && row.headD false) :: afterChar token cs row
  | _, _ => [false]

/-- The row of a star: this end or a shorter one is covered. -/
def afterRun : List Bool → List Bool
  | [] => []
  | covered :: row =>
    let later := afterRun row
    (covered || later.headD false) :: later

/-- Whether a component that starts within this end is covered, or else the empty end. -/
def atComponent : List Char → List Bool → List Bool
  | c :: cs, _ :: row =>
    let later := atComponent cs row
    (c == '/' && row.headD false || later.headD false) :: later
  | _, row => row

/-- The row of a list of tokens. -/
def coverage : List Token → List Char → List Bool
  | [], cs => List.replicate cs.length false ++ [true]
  | .anyRun :: tokens, cs => afterRun (coverage tokens cs)
  | .anyComponents :: tokens, cs =>
    let row := coverage tokens cs
    List.zipWith (· || ·) row (atComponent cs row)
  | token :: tokens, cs => afterChar token cs (coverage tokens cs)

def accepts (g : Glob) (s : String) : Bool :=
  (coverage g.tokens s.toList).headD false

theorem headD_suffixes (p : List Char → Bool) (cs : List Char) : ((suffixes cs).map p).headD false = p cs := by
  cases cs <;> rfl

theorem map_suffixes_nil (cs : List Char) :
    List.replicate cs.length false ++ [true] = (suffixes cs).map (covers []) := by
  induction cs with
  | nil => rfl
  | cons c cs ih =>
    rw [List.length_cons, List.replicate_succ, List.cons_append, ih]
    rfl

theorem afterChar_suffixes (token : Token) (p : List Char → Bool) (cs : List Char) :
    afterChar token cs ((suffixes cs).map p) = (suffixes cs).map fun
      | c :: rest => token.coversChar c && p rest
      | [] => false := by
  induction cs with
  | nil => rfl
  | cons c cs ih => simp only [suffixes, List.map_cons, afterChar, headD_suffixes, ih]

theorem afterRun_suffixes (p : List Char → Bool) (cs : List Char) :
    afterRun ((suffixes cs).map p) = (suffixes cs).map fun rest => (suffixes rest).any p := by
  induction cs with
  | nil => simp [suffixes, afterRun]
  | cons c cs ih =>
    simp only [suffixes, List.map_cons, afterRun, ih, List.any_cons]
    rw [headD_suffixes (fun rest => (suffixes rest).any p)]

theorem atComponent_suffixes (p : List Char → Bool) (cs : List Char) :
    atComponent cs ((suffixes cs).map p) = (suffixes cs).map fun rest => (componentSuffixes rest).any p := by
  induction cs with
  | nil => simp [suffixes, atComponent, componentSuffixes]
  | cons c cs ih =>
    simp only [suffixes, List.map_cons, atComponent, ih, headD_suffixes]
    by_cases h : c = '/' <;> simp [componentSuffixes, h]

/-- A row answers what trying every length answers. -/
theorem coverage_eq (tokens : List Token) (cs : List Char) :
    coverage tokens cs = (suffixes cs).map (covers tokens) := by
  induction tokens with
  | nil => exact map_suffixes_nil cs
  | cons token tokens ih =>
    cases token with
    | anyRun => simp [coverage, ih, afterRun_suffixes, covers]
    | anyComponents => simp [coverage, ih, atComponent_suffixes, covers, List.zipWith_map, List.zipWith_self]
    | literal | anyChar | within | without =>
      simp only [coverage, ih, afterChar_suffixes]
      congr 1
      funext rest
      cases rest <;> simp [covers]

theorem accepts_eq_covers (g : Glob) (s : String) : g.accepts s = covers g.tokens s.toList := by
  rw [accepts, coverage_eq, headD_suffixes]

end DynamicObjects.Glob
