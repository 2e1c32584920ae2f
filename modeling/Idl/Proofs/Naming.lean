import Mathlib
import Idl.Naming
import Idl.Schema.Reader

/-!
# The letters of a name

Joining the words of a name changes the case of letters and drops underscores. Which letter comes first
depends on what follows an underscore at the beginning.

* `caseless`: a name apart from the case of its letters.
* `capitalise_append`, `map_toLower_capitalise`: a capital at the beginning.
* `isHidden`: a name whose first letter is an underscore even when its words are joined.
* **`isUpper_head?_pascal`**: all other identifiers begin with a capital then.
* `Joined`, `joined_joinWords`, `joinWords_of_joined`: names whose words are joined, which stay as they
  are.
* `letters_joinWords`, `isName_joinWords`: the letters stay, and so does being an identifier.
* **`words_joined`**: how the two cases of a name hang together.
-/

namespace Idl.Naming

/-- A name apart from the case of its letters. -/
def caseless (name : String) : List Char := name.toList.map Char.toLower

theorem map_toLower_capitalise (cs : List Char) :
    (capitalise cs).map Char.toLower = cs.map Char.toLower := by
  cases cs with
  | nil => rfl
  | cons c cs => rw [capitalise, List.map_cons, List.map_cons, Char.toLower_toUpper_eq_toLower]

theorem capitalise_append {x : List Char} (hx : x ≠ []) (y : List Char) :
    capitalise (x ++ y) = capitalise x ++ y := by
  obtain ⟨c, cs, rfl⟩ := List.exists_cons_of_ne_nil hx
  rfl

theorem toList_pascal (n : String) : (pascal n).toList = capitalise (camel n).toList := by
  rw [pascal, camel, String.toList_ofList, String.toList_ofList]

/-! ## The first letter -/

/-- A name begins with an underscore that no small letter follows. -/
def isHidden (name : String) : Bool :=
  match name.toList with
  | c :: rest => c == '_' && !rest.head?.any Char.isLower
  | [] => false

/-- The first letter is a capital if it was a letter, or if a letter follows the underscore in its
place. -/
theorem isUpper_head?_capitalise (c : Char) (rest : List Char) :
    (capitalise (joinWords (c :: rest))).head?.any Char.isUpper =
      (c.isAlpha || c == '_' && rest.head?.any Char.isLower) := by
  cases rest with
  | nil => simp [joinWords, capitalise]
  | cons d rest =>
    rw [joinWords]
    split
    · rename_i hjoin
      have halpha : d.isAlpha = true := by rw [Char.isAlpha, hjoin.2, Bool.or_true]
      simp [capitalise, hjoin, halpha]
    · rename_i hkept
      have hrest : (c == '_' && d.isLower) = false := by simpa using hkept
      simp [capitalise, hrest]

/-- **An identifier begins with a capital** when its words are joined, unless it is hidden. -/
theorem isUpper_head?_pascal {n : String} {c : Char} {rest : List Char} (hn : n.toList = c :: rest)
    (hc : (c.isAlpha || c == '_') = true) :
    (pascal n).toList.head?.any Char.isUpper = !isHidden n := by
  rw [pascal, String.toList_ofList, hn, isUpper_head?_capitalise, isHidden, hn]
  by_cases hmark : c = '_'
  · subst hmark
    simp
  · have halpha : c.isAlpha = true := by simpa [hmark] using hc
    simp [hmark, halpha]

/-! ## Joined words -/

/-- No underscore stands right before a small letter. -/
def Joined (cs : List Char) : Prop := cs.IsChain fun c d => ¬ (c = '_' ∧ d.isLower = true)

theorem isUpper_toUpper {c : Char} (h : c.isLower = true) : c.toUpper.isUpper = true := by
  rw [Char.isUpper_toUpper_eq_isAlpha, Char.isAlpha, h, Bool.or_true]

theorem toUpper_eq_underscore_iff {c : Char} : c.toUpper = '_' ↔ c = '_' := by
  by_cases hc : c.isLower = true
  · have hupper := isUpper_toUpper hc
    constructor
    · intro h
      rw [h] at hupper
      cases hupper
    · rintro rfl
      cases hc
  · rw [Char.toUpper_eq_of_not_isLower hc]

/-- Joined words begin with a small letter exactly if the name does. -/
theorem isLower_head?_joinWords (cs : List Char) :
    (joinWords cs).head?.any Char.isLower = cs.head?.any Char.isLower := by
  fun_cases joinWords cs with
  | case1 => rfl
  | case2 => rfl
  | case3 c d rest hjoin => simp [hjoin.1]
  | case4 => rfl

/-- **Words are joined in one pass**, also where an underscore that is dropped stands after others. -/
theorem joined_joinWords (cs : List Char) : Joined (joinWords cs) := by
  fun_induction joinWords cs with
  | case1 => exact .nil
  | case2 c => exact .singleton c
  | case3 c d rest hjoin ih =>
    refine ih.cons fun e _ h => ?_
    rw [toUpper_eq_underscore_iff] at h
    rw [h.1] at hjoin
    cases hjoin.2
  | case4 c d rest hkept ih =>
    -- no small letter follows an underscore that is kept, whatever becomes of what follows
    refine ih.cons fun e he h => hkept ⟨h.1, ?_⟩
    have hhead := isLower_head?_joinWords (d :: rest)
    rw [Option.mem_def] at he
    rw [he] at hhead
    exact hhead.symm.trans h.2

theorem joinWords_of_joined {cs : List Char} (h : Joined cs) : joinWords cs = cs := by
  fun_induction joinWords cs with
  | case1 => rfl
  | case2 => rfl
  | case3 c d rest hjoin => exact absurd hjoin (List.isChain_cons_cons.1 h).1
  | case4 c d rest _ ih => rw [ih (List.isChain_cons_cons.1 h).2]

theorem Joined.capitalise {cs : List Char} (h : Joined cs) : Joined (capitalise cs) := by
  cases cs with
  | nil => exact h
  | cons c cs =>
    obtain ⟨hc, hcs⟩ := List.isChain_cons.1 h
    refine hcs.cons fun d hd hmark => hc d hd ?_
    rwa [toUpper_eq_underscore_iff] at hmark

theorem capitalise_capitalise (cs : List Char) : capitalise (capitalise cs) = capitalise cs := by
  cases cs with
  | nil => rfl
  | cons c cs => rw [capitalise, capitalise, Char.toUpper_toUpper_eq_toUpper]

theorem capitalise_eq_modifyHead (cs : List Char) :
    capitalise cs = cs.modifyHead fun c => if c.isLower then c.toUpper else c := by
  cases cs with
  | nil => rfl
  | cons c cs =>
    rw [capitalise, List.modifyHead_cons]
    split_ifs with hc
    · rfl
    · rw [Char.toUpper_eq_of_not_isLower hc]

/-! ## What stays of a name -/

/-- The characters of a name apart from underscores and from the case of letters. -/
def letters (cs : List Char) : List Char := (cs.filter (· != '_')).map Char.toLower

theorem letters_cons (c : Char) (cs : List Char) :
    letters (c :: cs) = if c = '_' then letters cs else c.toLower :: letters cs := by
  by_cases hc : c = '_' <;> simp [letters, hc]

theorem letters_cons_toUpper (c : Char) (cs : List Char) :
    letters (c.toUpper :: cs) = letters (c :: cs) := by
  simp [letters_cons, toUpper_eq_underscore_iff]

theorem letters_joinWords (cs : List Char) : letters (joinWords cs) = letters cs := by
  fun_induction joinWords cs with
  | case1 => rfl
  | case2 => rfl
  | case3 c d rest hjoin ih =>
    rw [letters_cons_toUpper, letters_cons d, ih, hjoin.1, letters_cons '_', if_pos rfl, letters_cons d]
  | case4 c d rest _ ih => rw [letters_cons c, ih, letters_cons c]

theorem letters_capitalise (cs : List Char) : letters (capitalise cs) = letters cs := by
  cases cs with
  | nil => rfl
  | cons c cs => exact letters_cons_toUpper c cs

theorem isNameStart_toUpper (c : Char) : Lexeme.isNameStart c.toUpper = Lexeme.isNameStart c := by
  by_cases hc : c.isLower = true
  · simp [Lexeme.isNameStart, Char.isAlpha, isUpper_toUpper hc, hc]
  · rw [Char.toUpper_eq_of_not_isLower hc]

theorem isNamePart_toUpper (c : Char) : Lexeme.isNamePart c.toUpper = Lexeme.isNamePart c := by
  by_cases hc : c.isLower = true
  · simp [Lexeme.isNamePart, Char.isAlphanum, Char.isAlpha, isUpper_toUpper hc, hc]
  · rw [Char.toUpper_eq_of_not_isLower hc]

/-- Joining words brings no characters into a name that identifiers do not have, and takes none out. -/
theorem all_joinWords (cs : List Char) :
    (joinWords cs).all Lexeme.isNamePart = cs.all Lexeme.isNamePart := by
  have hmark : Lexeme.isNamePart '_' = true := rfl
  fun_induction joinWords cs with
  | case1 => rfl
  | case2 => rfl
  | case3 c d rest hjoin ih =>
    rw [List.all_cons, List.all_cons, List.all_cons, ih, isNamePart_toUpper, hjoin.1, hmark,
      Bool.true_and]
  | case4 c d rest _ ih => simp only [List.all_cons, ih]

theorem isName_joinWords (cs : List Char) :
    Cursor.isName (String.ofList (joinWords cs)) = Cursor.isName (String.ofList cs) := by
  simp only [Cursor.isName, String.toList_ofList]
  fun_cases joinWords cs with
  | case1 => rfl
  | case2 => rfl
  | case3 c d rest hjoin =>
    -- the identifier began with the underscore that is dropped
    have hmark : Lexeme.isNameStart '_' = true := rfl
    have hstart : Lexeme.isNameStart d = true := by
      simp [Lexeme.isNameStart, Char.isAlpha, hjoin.2]
    have hpart : Lexeme.isNamePart d = true := by
      simp [Lexeme.isNamePart, Char.isAlphanum, Char.isAlpha, hjoin.2]
    simp only [isNameStart_toUpper, all_joinWords, List.all_cons, hjoin.1, hmark, hstart, hpart,
      Bool.true_and]
  | case4 c d rest => simp only [all_joinWords]

theorem isName_capitalise (cs : List Char) :
    Cursor.isName (String.ofList (capitalise cs)) = Cursor.isName (String.ofList cs) := by
  simp only [Cursor.isName, String.toList_ofList]
  cases cs with
  | nil => rfl
  | cons c cs => simp only [capitalise, isNameStart_toUpper]

/-- The name `t` is the name `s` with its words joined. -/
structure JoinedForm (s t : String) : Prop where
  joined : Joined t.toList
  /-- Nothing is lost but underscores and the case of letters. -/
  same : letters t.toList = letters s.toList
  name : Cursor.isName t = Cursor.isName s

theorem joinedForm_camel (s : String) : JoinedForm s (camel s) where
  joined := by
    rw [camel, String.toList_ofList]
    exact joined_joinWords _
  same := by rw [camel, String.toList_ofList, letters_joinWords]
  name := by rw [camel, isName_joinWords, String.ofList_toList]

theorem joinedForm_pascal (s : String) : JoinedForm s (pascal s) where
  joined := by
    rw [pascal, String.toList_ofList]
    exact (joined_joinWords _).capitalise
  same := by rw [pascal, String.toList_ofList, letters_capitalise, letters_joinWords]
  name := by rw [pascal, isName_capitalise, isName_joinWords, String.ofList_toList]

theorem JoinedForm.camel_eq {s t : String} (h : JoinedForm s t) : camel t = t := by
  rw [camel, joinWords_of_joined h.joined, String.ofList_toList]

theorem JoinedForm.pascal_eq {s t : String} (h : JoinedForm s t) :
    pascal t = String.ofList (capitalise t.toList) := by
  rw [pascal, joinWords_of_joined h.joined]

/-- **The cases of names.** For every text both cases are forms of it with joined words: no underscore is
left before a small letter, the other characters are the same apart from the case of letters, and
identifiers, and only they, become identifiers. A case that is applied to either case changes at most
the first letter, so that each of them leaves its own results as they are. They differ in the first
letter only, if it is a small one. -/
theorem words_joined (s : String) :
    JoinedForm s (pascal s) ∧ JoinedForm s (camel s) ∧
    pascal (pascal s) = pascal s ∧ camel (camel s) = camel s ∧
    pascal (camel s) = pascal s ∧ camel (pascal s) = pascal s ∧
    (pascal s).toList =
      (camel s).toList.modifyHead fun c => if c.isLower then c.toUpper else c := by
  have hpascal := joinedForm_pascal s
  have hcamel := joinedForm_camel s
  refine ⟨hpascal, hcamel, ?_, hcamel.camel_eq, ?_, hpascal.camel_eq, ?_⟩
  · rw [hpascal.pascal_eq, toList_pascal, capitalise_capitalise, ← toList_pascal, String.ofList_toList]
  · rw [hcamel.pascal_eq, ← toList_pascal, String.ofList_toList]
  · rw [toList_pascal, capitalise_eq_modifyHead]

end Idl.Naming
