import AdminConsole.Http.Header
import AdminConsole.Proofs.Entry.Wrapping
import AdminConsole.Session.Credentials
import Mathlib.Data.List.TakeWhile

/-!
Values of the Authorization header. Basic credentials fit a header, whatever they are. An endpoint
takes them from the text that the value carries, cut at its first colon: so it takes a user name that
holds no colon as it was, and without colons in the user names no two credentials have the same value.
-/

namespace AdminConsole.Header

/-! ### Values of both schemes -/

theorem unencodable?_ascii {value : String} (h : ∀ x ∈ value.toList, isAscii x = true) :
    unencodable? value = none := by
  have hnothing : value.toList.dropWhile isAscii = [] := List.dropWhile_eq_nil_iff.mpr h
  rw [unencodable?, hnothing]
  rfl

/-- A bearer token is not taken for basic credentials. -/
theorem isBasic_bearer (token : String) : isBasic (bearer token) = false := by
  rw [isBasic, bearer, String.toList_append]
  rfl

section

variable (username password : String)

theorem isBasic_basic : isBasic (basic username password) = true := by
  rw [isBasic, basic, String.toList_append]
  exact List.isPrefixOf_iff_prefix.mpr (List.prefix_append _ _)

/-- Basic credentials fit a header, whatever the user name and the password are. -/
theorem unencodable?_basic : unencodable? (basic username password) = none := by
  have hscheme : "Basic ".toList.all isAscii = true := rfl
  have hencoded : ∀ bytes : List UInt8,
      ∀ x ∈ (String.ofList (Base64.encode bytes)).toList, isAscii x = true := by
    intro bytes x hx
    rw [String.toList_ofList] at hx
    revert x
    exact Base64.forall_encode (by decide) (by decide) bytes
  apply unencodable?_ascii
  intro x hx
  rw [basic, String.toList_append] at hx
  exact (List.mem_append.mp hx).elim (List.all_eq_true.mp hscheme x) (hencoded _ x)

end

/-! ### What an endpoint reads -/

/-- The text that a value of the basic scheme carries. -/
def carried? (value : String) : Option (List Char) :=
  if isBasic value then do
    let bytes ← (Base64.decode (value.toList.drop "Basic ".length)).toOption
    (Text.Utf8.decode bytes).toOption
  else none

/-- The user name stands before the first colon, the password behind it. -/
def cut? (cs : List Char) : Option Credentials :=
  match cs.dropWhile (· ≠ ':') with
  | [] => none
  | _ :: password => some ⟨String.ofList (cs.takeWhile (· ≠ ':')), String.ofList password⟩

/-- The credentials that an endpoint takes from a header value. -/
def credentials? (value : String) : Option Credentials := carried? value >>= cut?

/-- The text of credentials. It does not show where a user name with a colon ends. -/
def joined (c : Credentials) : List Char := c.username.toList ++ ':' :: c.password.toList

variable {c c' : Credentials}

theorem cut?_joined (h : ':' ∉ c.username.toList) : cut? (joined c) = some c := by
  have hname : ∀ x ∈ c.username.toList, decide (x ≠ ':') = true := by
    intro x hx
    rw [decide_eq_true_eq]
    rintro rfl
    exact h hx
  have hbefore : (joined c).takeWhile (· ≠ ':') = c.username.toList := by
    rw [joined, List.takeWhile_append_of_pos hname, List.takeWhile_cons_of_neg (by decide),
      List.append_nil]
  have hbehind : (joined c).dropWhile (· ≠ ':') = ':' :: c.password.toList := by
    rw [joined, List.dropWhile_append_of_pos hname, List.dropWhile_cons_of_neg (by decide)]
  rw [cut?, hbefore, hbehind]
  simp only [String.ofList_toList]

theorem cut?_eq_some_iff {cs : List Char} :
    cut? cs = some c ↔ ':' ∉ c.username.toList ∧ cs = joined c := by
  constructor
  · intro h
    have hbefore : ':' ∉ cs.takeWhile (· ≠ ':') := fun hmem =>
      absurd (List.all_eq_true.mp List.all_takeWhile _ hmem) (by decide)
    have hparts := List.takeWhile_append_dropWhile (p := (· ≠ ':')) (l := cs)
    have hhead := List.head?_dropWhile_not (· ≠ ':') cs
    unfold cut? at h
    split at h
    · cases h
    · rename_i x password hbehind
      cases h
      rw [hbehind] at hparts hhead
      obtain rfl : x = ':' := by simpa using hhead
      rw [joined, String.toList_ofList, String.toList_ofList]
      exact ⟨hbefore, hparts.symm⟩
  · rintro ⟨hname, rfl⟩
    exact cut?_joined hname

/-- A value carries the text of the credentials that it was made from. -/
theorem carried?_basic (c : Credentials) :
    carried? (basic c.username c.password) = some (joined c) := by
  have hcode : (basic c.username c.password).toList.drop "Basic ".length =
      Base64.encode (Text.Utf8.encode (joined c)) := by
    rw [basic, String.toList_append, ← String.length_toList, List.drop_left, String.toList_ofList,
      joined]
  rw [carried?, if_pos (isBasic_basic _ _), hcode, Base64.decode_encode]
  change (Text.Utf8.decode _).toOption = _
  rw [Text.Utf8.decode_encode]
  rfl

theorem credentials?_basic_eq_some_iff :
    credentials? (basic c.username c.password) = some c' ↔
      ':' ∉ c'.username.toList ∧ joined c = joined c' := by
  rw [credentials?, carried?_basic]
  exact cut?_eq_some_iff

theorem basic_eq_basic_iff :
    basic c.username c.password = basic c'.username c'.password ↔ joined c = joined c' := by
  constructor
  · intro h
    have hcarried := carried?_basic c
    rw [h, carried?_basic] at hcarried
    exact (Option.some.inj hcarried).symm
  · intro h
    rw [joined, joined] at h
    rw [basic, basic, h]

theorem joined_inj (hname : ':' ∉ c.username.toList) (hname' : ':' ∉ c'.username.toList) :
    joined c = joined c' ↔ c = c' := by
  constructor
  · intro h
    have hcut := cut?_joined hname
    rw [h, cut?_joined hname'] at hcut
    exact (Option.some.inj hcut).symm
  · rintro rfl
    rfl

/-! ### Whom a value names -/

/-- An endpoint takes from a header value the credentials that it was made from exactly if their user
name holds no colon. Values are the same where the texts of the credentials are; without colons in the
user names, that is where the credentials are the same. -/
theorem basic_identifies (c : Credentials) :
    (credentials? (basic c.username c.password) = some c ↔ ':' ∉ c.username.toList) ∧
      ∀ c' : Credentials,
        (basic c.username c.password = basic c'.username c'.password ↔ joined c = joined c') ∧
          (':' ∉ c.username.toList → ':' ∉ c'.username.toList →
            (basic c.username c.password = basic c'.username c'.password ↔ c = c')) := by
  refine ⟨?_, fun c' => ⟨basic_eq_basic_iff, fun hname hname' => ?_⟩⟩
  · rw [credentials?_basic_eq_some_iff]
    exact and_iff_left rfl
  · rw [basic_eq_basic_iff, joined_inj hname hname']

/-- The same characters, with the colon at another place, and a password with a colon of its own. -/
theorem basic_identifies_shifted :
    ':' ∉ "zoë".toList ∧ credentials? (basic "zoë" "p:ss") = some ⟨"zoë", "p:ss"⟩ ∧
      ':' ∉ "zo".toList ∧ basic "zoë" "p:ss" ≠ basic "zo" "ëp:ss" := by
  have hname : ':' ∉ "zoë".toList := by decide
  have hname' : ':' ∉ "zo".toList := by decide
  obtain ⟨hread, hvalues⟩ := basic_identifies ⟨"zoë", "p:ss"⟩
  refine ⟨hname, hread.mpr hname, hname', fun h => ?_⟩
  have hsame := ((hvalues ⟨"zo", "ëp:ss"⟩).2 hname hname').mp h
  exact absurd hsame (by decide)

/-- A user name with a colon is taken for a shorter one, and its value is that of other credentials. -/
theorem basic_confuses :
    basic "a:b" "c" = basic "a" "b:c" ∧ credentials? (basic "a:b" "c") = some ⟨"a", "b:c"⟩ := by
  have hname : ':' ∉ "a".toList := by decide
  have htext : joined ⟨"a:b", "c"⟩ = joined ⟨"a", "b:c"⟩ := by decide
  have hvalues := basic_eq_basic_iff.mpr htext
  have hread := credentials?_basic_eq_some_iff.mpr ⟨hname, htext⟩
  exact ⟨hvalues, hread⟩

end AdminConsole.Header
