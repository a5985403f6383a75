import Listing.Connection.Settings
import Listing.Proofs.Digits
import Listing.Proofs.PercentText
import Mathlib.Data.List.TakeWhile

namespace Listing.Connection

open Number Text

def isSegmentChar (c : Char) : Bool := isPathChar c && c ≠ '/'

def isHostChar (c : Char) : Bool := !isControl c && !forbidden.contains c

/-- A text without spaces, controls, and what stands around a host. -/
structure IsHostName (host : String) : Prop where
  nonempty : host ≠ ""
  isHostChar : ∀ c ∈ host.toList, isHostChar c

/-- Parts that stand in a URL as they are. -/
structure ArePlain (user password host : String) (port : Nat) (database : String) : Prop where
  user_ne : user ≠ ""
  isUserChar : ∀ c ∈ user.toList, isUserChar c
  isPasswordChar : ∀ c ∈ password.toList, Connection.isUserChar c
  isHostName : IsHostName host
  port_le : port ≤ 0xffff
  database_ne : database ≠ ""
  isSegmentChar : ∀ c ∈ database.toList, isSegmentChar c
  not_isDot : isDot database.toList = false
  not_isDoubleDot : isDoubleDot database.toList = false

def credentialsUrl (user password host : String) (port : Nat) (database : String) : String :=
  "postgresql://" ++ user ++ ":" ++ password ++ "@" ++ host ++ ":" ++ toString port ++ "/" ++
    database

variable {cs ds : List Char}

theorem toNat_range_of_isControl {c : Char} (hc : isControl c = false) (hspace : c ≠ ' ') :
    0x20 < c.toNat ∧ c.toNat < 0x7F := by
  have hne : c.toNat ≠ 0x20 := fun heq ↦ hspace (Char.toNat_inj.1 heq)
  rw [isControl, Bool.or_eq_false_iff, decide_eq_false_iff_not, decide_eq_false_iff_not] at hc
  omega

theorem toNat_range_of_isPathChar {c : Char} (h : isPathChar c) :
    0x20 < c.toNat ∧ c.toNat < 0x7F := by
  refine toNat_range_of_isControl (Bool.not_eq_eq_eq_not.1 (Bool.and_eq_true_iff.1 h).1) ?_
  rintro rfl
  exact absurd h (by decide)

theorem isPathChar_of_isUserChar {c : Char} (h : isUserChar c) : isPathChar c :=
  (Bool.and_eq_true_iff.1 h).1

theorem isPathChar_of_isSegmentChar {c : Char} (h : isSegmentChar c) : isPathChar c :=
  (Bool.and_eq_true_iff.1 h).1

theorem isSegmentChar_of_isUserChar {c : Char} (h : isUserChar c) : isSegmentChar c := by
  refine Bool.and_eq_true_iff.2 ⟨isPathChar_of_isUserChar h, decide_eq_true ?_⟩
  rintro rfl
  exact absurd h (by decide)

theorem isHostChar_iff {c : Char} :
    isHostChar c ↔ isControl c = false ∧ forbidden.contains c = false := by simp [isHostChar]

theorem not_of_mem_head? {p : Char → Bool} {c : Char} (h : p c = false) (cs : List Char) :
    ∀ d ∈ (c :: cs).head?, p d = false := by
  intro d hd
  rw [← Option.some.inj hd, h]

theorem percentEncode_of_kept {kept : Char → Bool} (h : ∀ c ∈ cs, kept c) :
    percentEncode kept cs = cs := by
  rw [percentEncode, List.flatMap_congr fun c hc ↦ if_pos (h c hc), List.flatMap_singleton']

theorem cleaned_eq {s : String} (h : ∀ c ∈ s.toList, 0x20 < c.toNat) : cleaned s = s.toList := by
  have hedge {cs : List Char} (hcs : ∀ c ∈ cs, 0x20 < c.toNat) :
      cs.dropWhile (fun c ↦ decide (c.toNat ≤ 0x20)) = cs := by
    rw [List.dropWhile_eq_self_iff]
    intro hpos
    have hfirst := hcs _ (List.getElem_mem hpos)
    simp only [decide_eq_true_eq]
    omega
  have hinner : ∀ c ∈ s.toList, !(c == '\t' || c == '\n' || c == '\r') := by
    intro c hc
    have hbound := h c hc
    have hne {x : Char} (hx : x.toNat ≤ 0x20) : (c == x) = false := by
      refine beq_false_of_ne ?_
      rintro rfl
      omega
    rw [hne (by decide), hne (by decide), hne (by decide)]
    rfl
  simp only [cleaned, hedge h, hedge fun c hc ↦ h c (List.mem_reverse.1 hc), List.reverse_reverse,
    List.filter_eq_self.2 hinner]

theorem splitCredentials_append (hback : '@' ∉ ds) :
    splitCredentials (cs ++ '@' :: ds) = (some cs, ds) := by
  have hafter : ((cs ++ '@' :: ds).reverse.takeWhile (· ≠ '@')).reverse = ds := by
    rw [List.reverse_append, List.reverse_cons, List.append_assoc, takeWhile_append,
      List.reverse_reverse]
    · intro c hc
      exact decide_eq_true fun heq ↦ hback (heq ▸ List.mem_reverse.1 hc)
    · simp
  have hlength : (cs ++ '@' :: ds).length = cs.length + 1 + ds.length := by
    rw [List.length_append, List.length_cons]
    omega
  have hfront : cs.length + 1 + ds.length - ds.length - 1 = cs.length := by omega
  rw [splitCredentials, hafter, hlength, if_neg (by omega), hfront, List.take_left' rfl]

theorem readCredentials_append (huser : ∀ c ∈ cs, isUserChar c)
    (hpassword : ∀ c ∈ ds, isUserChar c) : readCredentials (cs ++ ':' :: ds) =
      (String.ofList cs, if ds = [] then none else some (String.ofList ds)) := by
  have hcolon : ∀ c ∈ cs, decide (c ≠ ':') := by
    intro c hc
    refine decide_eq_true ?_
    rintro rfl
    exact absurd (huser _ hc) (by decide)
  rw [readCredentials, takeWhile_append hcolon (by simp), dropWhile_append hcolon (by simp)]
  simp only [List.drop_succ_cons, List.drop_zero, percentEncode_of_kept huser,
    percentEncode_of_kept hpassword]

theorem splitHost_append (hhost : ∀ c ∈ cs, isHostChar c) :
    splitHost false (cs ++ ':' :: ds) = (cs, ':' :: ds) := by
  induction cs with
  | nil => rfl
  | cons c cs ih =>
    obtain ⟨hc, hhost⟩ := List.forall_mem_cons.1 hhost
    have hne {x : Char} (hx : isHostChar x = false) : c ≠ x := by
      rintro rfl
      rw [hc] at hx
      exact absurd hx (by decide)
    have hcolon : ¬(c = ':' ∧ !false) := fun h ↦ hne (by decide) h.1
    simp only [List.cons_append, splitHost, if_neg hcolon, if_neg (hne (x := '[') (by decide)),
      if_neg (hne (x := ']') (by decide)), ih hhost]

theorem opaqueHost_eq (h : ∀ c ∈ cs, isHostChar c) : opaqueHost cs = .ok (String.ofList cs) := by
  have hbracket : cs.head? ≠ some '[' := by
    intro hhead
    exact absurd (h _ (List.mem_of_mem_head? hhead)) (by decide)
  have hany : ¬cs.any forbidden.contains := by
    rw [List.any_eq_true]
    rintro ⟨c, hc, hforbidden⟩
    rw [(isHostChar_iff.1 (h c hc)).2] at hforbidden
    exact absurd hforbidden (by decide)
  rw [opaqueHost, if_neg hbracket, if_neg hany, percentEncode_of_kept]
  intro c hc
  rw [(isHostChar_iff.1 (h c hc)).1]
  rfl

theorem readPort_toDigits {port : Nat} (h : port ≤ 0xffff) :
    readPort (Nat.toDigits 10 port) = .ok (some port, []) := by
  have hdigits : ∀ c ∈ Nat.toDigits 10 port, isDigit c := fun _ ↦ isDigit_of_mem_toDigits
  have htake := List.takeWhile_eq_self_iff.2 hdigits
  have hdrop := List.dropWhile_eq_nil_iff.2 hdigits
  have hsmall : ¬0xffff < port := by omega
  simp only [readPort, htake, hdrop, digitsValue_toDigits, if_neg hsmall, List.head?_nil,
    Option.any_none, if_neg Nat.toDigits_ne_nil]
  rfl

theorem path_unbroken (h : ∀ c ∈ cs, isSegmentChar c) : ∀ c ∈ '/' :: cs, c ≠ '?' ∧ c ≠ '#' := by
  refine List.forall_mem_cons.2 ⟨by decide, fun c hc ↦ ?_⟩
  constructor <;> rintro rfl <;> exact absurd (h _ hc) (by decide)

theorem readPath_segment (h : ∀ c ∈ cs, isSegmentChar c) (hdot : isDot cs = false)
    (hdots : isDoubleDot cs = false) : readPath ('/' :: cs) = String.ofList ('/' :: cs) := by
  have hslash : '/' ∉ cs := fun hmem ↦ absurd (h _ hmem) (by decide)
  have hkept : ∀ c ∈ cs, isPathChar c := fun c hc ↦ isPathChar_of_isSegmentChar (h c hc)
  have hall : ∀ c ∈ '/' :: cs, decide (c ≠ '?' ∧ c ≠ '#') :=
    fun c hc ↦ decide_eq_true (path_unbroken h c hc)
  simp only [readPath, List.takeWhile_eq_self_iff.2 hall]
  simp [List.splitOn_eq_singleton hslash, percentEncode_of_kept hkept, resolveDots, hdot, hdots]

theorem readQuery_segment (h : ∀ c ∈ cs, isSegmentChar c) : readQuery ('/' :: cs) = "" := by
  have hfragment : ∀ c ∈ '/' :: cs, decide (c ≠ '#') :=
    fun c hc ↦ decide_eq_true (path_unbroken h c hc).2
  have hquestion : ∀ c ∈ '/' :: cs, decide (c ≠ '?') :=
    fun c hc ↦ decide_eq_true (path_unbroken h c hc).1
  rw [readQuery, List.takeWhile_eq_self_iff.2 hfragment, List.dropWhile_eq_nil_iff.2 hquestion]
  rfl

def spellings : List Char → List (List Char)
  | [] => [[]]
  | x :: cs => [x, x.toUpper].flatMap fun c ↦ (spellings cs).map (c :: ·)

theorem toUpper_lowerAscii {c : Char} (h : 'A' ≤ c ∧ c ≤ 'Z') : (lowerAscii c).toUpper = c := by
  have hall : ∀ n < 26, (Char.ofNat (65 + n + 32)).toUpper = Char.ofNat (65 + n) := by decide
  have hlow : 65 ≤ c.toNat := h.1
  have hhigh : c.toNat ≤ 90 := h.2
  have hletter := hall (c.toNat - 65) (by omega)
  rw [Nat.add_sub_cancel' hlow, Char.ofNat_toNat] at hletter
  rw [lowerAscii, if_pos h, hletter]

theorem mem_spellings (cs : List Char) : cs ∈ spellings (cs.map lowerAscii) := by
  induction cs with
  | nil => exact List.mem_singleton_self _
  | cons c cs ih =>
    have hc : c ∈ [lowerAscii c, (lowerAscii c).toUpper] := by
      by_cases h : 'A' ≤ c ∧ c ≤ 'Z'
      · simp [toUpper_lowerAscii h]
      · simp [lowerAscii, h]
    exact List.mem_flatMap.2 ⟨c, hc, List.mem_map_of_mem ih⟩

theorem percentDecode_of_contains {ts : List String} {s : String}
    (hall : ∀ t ∈ ts, ∀ ds ∈ spellings t.toList, percentDecode (utf8 (String.ofList ds)) = utf8 s)
    (h : ts.contains (String.ofList (cs.map lowerAscii))) :
    percentDecode (utf8 (String.ofList cs)) = utf8 s := by
  refine hall _ (List.contains_iff_mem.1 h) cs ?_
  rw [String.toList_ofList]
  exact mem_spellings cs

theorem percentDecode_of_isDot (h : isDot cs) :
    percentDecode (utf8 (String.ofList cs)) = utf8 "." :=
  percentDecode_of_contains (by decide +kernel) h

theorem percentDecode_of_isDoubleDot (h : isDoubleDot cs) :
    percentDecode (utf8 (String.ofList cs)) = utf8 ".." :=
  percentDecode_of_contains (by decide +kernel) h

def placeOf (host : String) (port : Nat) : List Char := host.toList ++ ':' :: Nat.toDigits 10 port

def authorityOf (user password host : String) (port : Nat) : List Char :=
  user.toList ++ ':' :: password.toList ++ '@' :: placeOf host port

theorem not_isDelimiter_of {p : Char → Bool} {c : Char} (hc : p c)
    (hp : (p '/' || p '?' || p '#') = false) : !isDelimiter .other c := by
  rw [Bool.not_eq_true', ← Bool.not_eq_true]
  intro h
  have hends : c = '/' ∨ c = '?' ∨ c = '#' := by simpa [isDelimiter, or_assoc] using h
  obtain rfl | rfl | rfl := hends <;> simp [hc] at hp

theorem readScheme_append {c : Char} (hletter : isLetter c) (h : ∀ d ∈ c :: cs, isSchemeChar d)
    (ds : List Char) : readScheme (c :: cs ++ ':' :: ds) =
      some (String.ofList ((c :: cs).map lowerAscii), ds) := by
  have hcolon : ∀ d ∈ (':' :: ds).head?, isSchemeChar d = false := not_of_mem_head? rfl ds
  rw [readScheme, takeWhile_append h hcolon, dropWhile_append h hcolon]
  exact if_pos hletter

def scheme : List Char := ['p', 'o', 's', 't', 'g', 'r', 'e', 's', 'q', 'l']

theorem toList_credentialsUrl (user password host : String) (port : Nat) (database : String) :
    (credentialsUrl user password host port database).toList =
      scheme ++ ':' :: '/' :: '/' :: (authorityOf user password host port ++
        '/' :: database.toList) := by
  have hstart : "postgresql://".toList = scheme ++ [':', '/', '/'] := by decide
  have hcolon : ":".toList = [':'] := by decide
  have hat : "@".toList = ['@'] := by decide
  have hslash : "/".toList = ['/'] := by decide
  have hport : (toString port).toList = Nat.toDigits 10 port := by
    rw [Nat.toString_eq_repr, Nat.repr, String.toList_ofList]
  unfold credentialsUrl
  simp only [String.toList_append, hstart, hcolon, hat, hslash, hport]
  simp only [authorityOf, placeOf, List.append_assoc, List.cons_append, List.nil_append]

namespace ArePlain

variable {user password host database : String} {port : Nat}

theorem not_isDelimiter (h : ArePlain user password host port database) :
    ∀ c ∈ authorityOf user password host port, !isDelimiter .other c := by
  simp only [authorityOf, placeOf, List.forall_mem_append, List.forall_mem_cons]
  exact ⟨⟨fun c hc ↦ not_isDelimiter_of (h.isUserChar c hc) (by decide), rfl,
    fun c hc ↦ not_isDelimiter_of (h.isPasswordChar c hc) (by decide)⟩, rfl,
    fun c hc ↦ not_isDelimiter_of (h.isHostName.isHostChar c hc) (by decide), rfl,
    fun c hc ↦ not_isDelimiter_of (isDigit_of_mem_toDigits hc) (by decide)⟩

theorem not_mem_placeOf (h : ArePlain user password host port database) :
    '@' ∉ placeOf host port := by
  rw [placeOf, List.mem_append, List.mem_cons]
  rintro (hmem | hcolon | hmem)
  · exact absurd (h.isHostName.isHostChar _ hmem) (by decide)
  · exact absurd hcolon (by decide)
  · exact absurd (isDigit_of_mem_toDigits hmem) (by decide)

theorem lt_toNat (h : ArePlain user password host port database) :
    ∀ c ∈ (credentialsUrl user password host port database).toList, 0x20 < c.toNat := by
  have huser {c : Char} (h : Connection.isUserChar c) : 0x20 < c.toNat :=
    (toNat_range_of_isPathChar (isPathChar_of_isUserChar h)).1
  have hscheme : ∀ c ∈ scheme, 0x20 < c.toNat := by simp [scheme]
  rw [toList_credentialsUrl]
  simp only [authorityOf, placeOf, List.forall_mem_append, List.forall_mem_cons]
  refine ⟨hscheme, by decide, by decide, by decide, ⟨⟨fun c hc ↦ huser (h.isUserChar c hc),
    by decide, fun c hc ↦ huser (h.isPasswordChar c hc)⟩, by decide, fun c hc ↦ ?_, by decide,
    fun c hc ↦ ?_⟩, by decide, fun c hc ↦
    (toNat_range_of_isPathChar (isPathChar_of_isSegmentChar (h.isSegmentChar c hc))).1⟩
  · have hhost := h.isHostName.isHostChar c hc
    refine (toNat_range_of_isControl (isHostChar_iff.1 hhost).1 ?_).1
    rintro rfl
    exact absurd hhost (by decide)
  · have hdigit := digit_range (isDigit_of_mem_toDigits hc)
    omega

def location (user password host : String) (port : Nat) (database : String) : Location where
  user
  password := if password = "" then none else some password
  host
  port := some port
  path := String.ofList ('/' :: database.toList)
  query := ""

theorem readLocation_eq (h : ArePlain user password host port database) :
    readLocation .other (authorityOf user password host port ++ '/' :: database.toList) =
      .ok (some (location user password host port database)) := by
  have hslash : ∀ c ∈ ('/' :: database.toList).head?, (!isDelimiter .other c) = false :=
    not_of_mem_head? rfl _
  rw [readLocation]
  simp only [takeWhile_append h.not_isDelimiter hslash, dropWhile_append h.not_isDelimiter hslash]
  rw [authorityOf, splitCredentials_append h.not_mem_placeOf, placeOf]
  simp only [Option.getD_some, readCredentials_append h.isUserChar h.isPasswordChar,
    splitHost_append h.isHostName.isHostChar, readHost, opaqueHost_eq h.isHostName.isHostChar]
  rw [if_neg (by simp)]
  simp only [bind, Except.bind, String.toList_eq_nil_iff, if_neg h.isHostName.nonempty,
    List.drop_succ_cons, List.drop_zero, readPort_toDigits h.port_le, List.nil_append,
    String.ofList_toList,
    readPath_segment h.isSegmentChar h.not_isDot h.not_isDoubleDot,
    readQuery_segment h.isSegmentChar, location]

theorem read_eq (h : ArePlain user password host port database) :
    Url.read (credentialsUrl user password host port database) =
      .ok ⟨"postgresql", some (location user password host port database)⟩ := by
  have hscheme (cs : List Char) : readScheme (scheme ++ ':' :: cs) = some ("postgresql", cs) :=
    readScheme_append (by decide) (List.all_eq_true.1 (by decide)) cs
  have hkind : SchemeKind.of "postgresql" = .other := by decide
  rw [Url.read, cleaned_eq h.lt_toNat, toList_credentialsUrl, hscheme]
  simp only [hkind, h.readLocation_eq]
  rfl

def settings (user password host : String) (port : Nat) (database : String) : Settings :=
  { Settings.ofDatabase database with
    host, port, user, password := if password = "" then none else some password }

theorem ofLocation_eq (h : ArePlain user password host port database) :
    Settings.ofLocation (location user password host port database) =
      .ok (settings user password host port database) := by
  have hname : (['/'] ++ database.toList).dropWhile (· = '/') = database.toList := by
    refine dropWhile_append (by simp) fun c hc ↦ decide_eq_false ?_
    rintro rfl
    exact absurd (h.isSegmentChar _ (List.mem_of_mem_head? hc)) (by decide)
  rw [List.singleton_append] at hname
  rw [Settings.ofLocation, location, String.toList_ofList, hname, String.ofList_toList]
  simp only [if_neg h.database_ne, if_neg h.user_ne, Option.getD_some, settings]

theorem ofUrl_eq (h : ArePlain user password host port database) :
    Settings.ofUrl (credentialsUrl user password host port database) =
      .ok (settings user password host port database) := by
  have hschemes : Settings.schemes.contains "postgresql" := by decide
  have hempty : formPairs "".toList = [] := by decide
  have hpairs : formPairs (location user password host port database).query.toList = [] := hempty
  rw [Settings.ofUrl, h.read_eq]
  simp only [bind, Except.bind, Except.mapError, hschemes, if_true, h.ofLocation_eq, hpairs]
  rfl

end ArePlain

/-- The settings have the user, the password and the database that were meant. No password is the
same as an empty one. -/
def Settings.Carries (s : Settings) (user password database : String) : Prop :=
  s.user = user ∧ s.password.getD "" = password ∧ s.database = database

def isUnescaped (c : Char) : Bool := isUserChar c && c ≠ '%'

def escaped (s : String) : String := String.ofList (percentEncode isUnescaped s.toList)

theorem isEncoded_escaped {plain : Char → Bool} (h : ∀ c, isUserChar c → plain c) (s : String) :
    IsEncoded plain s (escaped s) := by
  have hescape : ∀ c ∈ "%0123456789ABCDEF".toList, isUserChar c := List.all_eq_true.1 (by decide)
  refine isEncoded_percentEncode (fun c hc ↦ ?_) (fun c hc ↦ h c (hescape c hc)) s
  obtain ⟨huser, hmark⟩ := Bool.and_eq_true_iff.1 hc
  have hrange := toNat_range_of_isPathChar (isPathChar_of_isUserChar huser)
  exact ⟨by omega, of_decide_eq_true hmark, h c huser⟩

variable {user password host database u p d : String} {port : Nat}

theorem arePlain_of_isEncoded (huser : IsEncoded isUserChar user u) (hune : user ≠ "")
    (hpassword : IsEncoded isUserChar password p) (hdatabase : IsEncoded isSegmentChar database d)
    (hdne : database ≠ "") (hdot : database ≠ ".") (hdots : database ≠ "..")
    (hhost : IsHostName host) (hport : port ≤ 0xffff) : ArePlain u p host port d := by
  have hdecode := hdatabase.decode
  rw [← String.ofList_toList (s := d)] at hdecode
  have hone : isDot d.toList = false := by
    rw [← Bool.not_eq_true]
    exact fun h ↦ hdot (utf8_injective (hdecode.symm.trans (percentDecode_of_isDot h)))
  have htwo : isDoubleDot d.toList = false := by
    rw [← Bool.not_eq_true]
    exact fun h ↦ hdots (utf8_injective (hdecode.symm.trans (percentDecode_of_isDoubleDot h)))
  exact ⟨huser.ne_empty hune, huser.isPlain, hpassword.isPlain, hhost, hport,
    hdatabase.ne_empty hdne, hdatabase.isPlain, hone, htwo⟩

/-- Any user, password and database can be written into a URL, and what is read is what is written:
the settings are the ones meant exactly if none of the three has an escape. -/
theorem carries_iff (huser : IsEncoded isUserChar user u) (hune : user ≠ "")
    (hpassword : IsEncoded isUserChar password p) (hdatabase : IsEncoded isSegmentChar database d)
    (hdne : database ≠ "") (hdot : database ≠ ".") (hdots : database ≠ "..")
    (hhost : IsHostName host) (hport : port ≤ 0xffff) :
    ∃ s, Settings.ofUrl (credentialsUrl u p host port d) = .ok s ∧ s.host = host ∧ s.port = port ∧
      s.Carries u p d ∧ (s.Carries user password database ↔ hasEscape (utf8 u) = false ∧
        hasEscape (utf8 p) = false ∧ hasEscape (utf8 d) = false) := by
  have hplain := arePlain_of_isEncoded huser hune hpassword hdatabase hdne hdot hdots hhost hport
  have hshown : (if p = "" then none else some p).getD "" = p := by
    by_cases hempty : p = ""
    · rw [if_pos hempty, hempty]
      rfl
    · rw [if_neg hempty]
      rfl
  refine ⟨_, hplain.ofUrl_eq, rfl, rfl, ⟨rfl, hshown, rfl⟩, ?_⟩
  rw [← huser.eq_iff, ← hpassword.eq_iff, ← hdatabase.eq_iff]
  simp only [Settings.Carries, ArePlain.settings, hshown]
  rfl

theorem isHostName_localhost : IsHostName "localhost" :=
  ⟨by decide, List.all_eq_true.1 (by decide)⟩

theorem carries_iff_reporter :
    (∃ s, Settings.ofUrl (credentialsUrl (escaped "reporter") (escaped "secret") "localhost" 5432
      (escaped "payroll")) = .ok s ∧ s.Carries "reporter" "secret" "payroll") ∧
    ∃ s, Settings.ofUrl (credentialsUrl (escaped "reporter") (escaped "p@ss") "localhost" 5432
      (escaped "payroll")) = .ok s ∧ ¬s.Carries "reporter" "p@ss" "payroll" := by
  have huser := isEncoded_escaped (fun _ h ↦ h) "reporter"
  have hdatabase := isEncoded_escaped (fun _ ↦ isSegmentChar_of_isUserChar) "payroll"
  constructor
  · obtain ⟨s, hs, -, -, -, hcarries⟩ := carries_iff huser (by decide)
      (isEncoded_escaped (fun _ h ↦ h) "secret") hdatabase (by decide) (by decide) (by decide)
      isHostName_localhost (show 5432 ≤ 0xffff by decide)
    exact ⟨s, hs, hcarries.2 (by decide +kernel)⟩
  · obtain ⟨s, hs, -, -, -, hcarries⟩ := carries_iff huser (by decide)
      (isEncoded_escaped (fun _ h ↦ h) "p@ss") hdatabase (by decide) (by decide) (by decide)
      isHostName_localhost (show 5432 ≤ 0xffff by decide)
    exact ⟨s, hs, fun h ↦ absurd (hcarries.1 h) (by decide +kernel)⟩

/-- A password with an escape is not decoded, and the same text in the query is. -/
theorem ofUrl_escapedPassword : percentDecode (utf8 "p%40ss") = utf8 "p@ss" ∧
    (Settings.ofUrl (credentialsUrl "user" "p%40ss" "localhost" 5432 "payroll")).toOption.map
      (·.password) = some (some "p%40ss") ∧
    (Settings.ofUrl "postgresql://user@localhost:5432/payroll?application_name=p%40ss").toOption.map
      (·.applicationName) = some (some "p@ss") := by
  decide +kernel

end Listing.Connection
