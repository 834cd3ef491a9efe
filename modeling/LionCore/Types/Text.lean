import LionCore.Base.Text
import LionCore.Types.Policy
import LionCore.Types.RightSet

/-!
# The text forms

* `isWhitespace`, `toLowercase`   what the parsers do to a text before they compare it;
* `fromWords_ok_iff`     a parser that compares with a list of words;
* `MemRegion.fromStr`    `kernel`, or `plugin:` and a number;
* `mem_region_text`      **main result**: which texts it accepts; it reads what is displayed;
* `words_text`           **main result**: the same for rights, levels, decisions and message states;
* `rights_text`          **main result**: the text of a set of rights can be read back.
-/

namespace LionCore
open Base

/-! ## characters -/

/-- the characters with the property `White_Space` -/
def isWhitespace (c : Char) : Bool :=
  (9 ≤ c.toNat && c.toNat ≤ 13) || c.toNat = 32 || c.toNat = 0x85 || c.toNat = 0xA0 ||
    c.toNat = 0x1680 || (0x2000 ≤ c.toNat && c.toNat ≤ 0x200A) || c.toNat = 0x2028 ||
    c.toNat = 0x2029 || c.toNat = 0x202F || c.toNat = 0x205F || c.toNat = 0x3000

/-- of `to_lowercase` what can be seen by comparing with letters from a to z, digits and signs: a
capital letter, and the Kelvin sign; whatever else has a lower case has one that is none of them -/
def toLowercase (c : Char) : Char :=
  if 65 ≤ c.toNat ∧ c.toNat ≤ 90 then Char.ofNat (c.toNat + 32)
  else if c.toNat = 0x212A then 'k' else c

theorem toLowercase_cases (c : Char) : toLowercase c = c ∨
    (isWhitespace c = false ∧ 97 ≤ (toLowercase c).toNat ∧ (toLowercase c).toNat ≤ 122) := by
  unfold toLowercase
  split
  · rename_i h
    have hletter : ∀ n < 26, (Char.ofNat (n + 97)).toNat = n + 97 := by decide
    have hn := hletter (c.toNat - 65) (by omega)
    rw [show c.toNat - 65 + 97 = c.toNat + 32 by omega] at hn
    refine Or.inr ⟨?_, by omega, by omega⟩
    unfold isWhitespace
    simp
    omega
  · split
    · rename_i h
      refine Or.inr ⟨?_, by decide, by decide⟩
      unfold isWhitespace
      rw [h]
      decide
    · exact Or.inl rfl

theorem isWhitespace_toLowercase (c : Char) : isWhitespace (toLowercase c) = isWhitespace c := by
  rcases toLowercase_cases c with h | ⟨h, hle, hge⟩
  · rw [h]
  · rw [h]
    unfold isWhitespace
    simp
    omega

theorem toLowercase_of_lt {c : Char} (h : c.toNat < 65) : toLowercase c = c := by
  unfold toLowercase
  rw [if_neg (by omega), if_neg (by omega)]

/-- below the letters a lower case is the character itself -/
theorem eq_of_toLowercase {t ds : List Char} (h : t.map toLowercase = ds)
    (hds : ∀ c ∈ ds, c.toNat < 65) : t = ds := by
  subst h
  induction t with
  | nil => rfl
  | cons c t ih =>
    rw [List.map_cons, List.forall_mem_cons] at hds
    rw [List.map_cons]
    congr 1
    · rcases toLowercase_cases c with e | ⟨_, hle, _⟩
      · exact e.symm
      · have hlt := hds.1
        omega
    · exact ih hds.2

theorem map_toLowercase_of_lt {ds : List Char} (hds : ∀ c ∈ ds, c.toNat < 65) :
    ds.map toLowercase = ds := by
  conv_rhs => rw [← List.map_id ds]
  exact List.map_congr_left fun c hc => toLowercase_of_lt (hds c hc)

theorem toNat_of_isDigit {c : Char} (h : c.isDigit = true) : 48 ≤ c.toNat ∧ c.toNat ≤ 57 := by
  unfold Char.isDigit at h
  rw [Bool.and_eq_true, decide_eq_true_iff, decide_eq_true_iff] at h
  exact ⟨UInt32.le_iff_toNat_le.mp h.1, UInt32.le_iff_toNat_le.mp h.2⟩

/-- `t` with blanks before and behind it -/
def Around (s t : List Char) : Prop :=
  ∃ pre suf, s = pre ++ t ++ suf ∧ (∀ c ∈ pre, isWhitespace c = true) ∧
    ∀ c ∈ suf, isWhitespace c = true

/-- no blank at either end -/
def Solid (t : List Char) : Prop :=
  (∀ c ∈ t.head?, isWhitespace c = false) ∧ ∀ c ∈ t.getLast?, isWhitespace c = false

theorem around_trim (s : List Char) :
    Around s (trim isWhitespace s) ∧ Solid (trim isWhitespace s) := trim_eq_iff.mp rfl

theorem Around.trim {s t : List Char} (h : Around s t) (ht : Solid t) : trim isWhitespace s = t :=
  trim_eq_iff.mpr ⟨h, ht⟩

theorem Solid.of_ends {t : List Char} {a b : Char} (ha : t.head? = some a)
    (hb : t.getLast? = some b) (hna : isWhitespace a = false) (hnb : isWhitespace b = false) :
    Solid t := by
  unfold Solid
  rw [ha, hb]
  constructor
  · intro c hc
    rw [← Option.mem_some_iff.mp hc]
    exact hna
  · intro c hc
    rw [← Option.mem_some_iff.mp hc]
    exact hnb

/-- a text is solid if its lower case is -/
theorem solid_of_map {t : List Char} (h : Solid (t.map toLowercase)) : Solid t := by
  constructor
  · intro c hc
    rw [← isWhitespace_toLowercase]
    apply h.1
    rw [List.head?_map, hc]
    exact rfl
  · intro c hc
    rw [← isWhitespace_toLowercase]
    apply h.2
    rw [List.getLast?_map, hc]
    exact rfl

/-! ## regions of memory -/

inductive MemRegion
  | kernel
  | plugin (id : PluginId)
  deriving DecidableEq, Repr

/-- every error of a parser names the text as it was given -/
structure ParseError where
  input : List Char
  deriving DecidableEq, Repr

def stripPrefix (pre s : List Char) : Option (List Char) :=
  if pre.isPrefixOf s then some (s.drop pre.length) else none

theorem stripPrefix_eq_some_iff {pre s rest : List Char} :
    stripPrefix pre s = some rest ↔ s = pre ++ rest := by
  unfold stripPrefix
  by_cases h : pre.isPrefixOf s = true
  · obtain ⟨t, rfl⟩ := List.isPrefixOf_iff_prefix.mp h
    rw [if_pos h, List.drop_left, Option.some_inj, List.append_cancel_left_eq]
  · rw [if_neg h]
    refine iff_of_false nofun fun e => h ?_
    exact List.isPrefixOf_iff_prefix.mpr ⟨rest, e.symm⟩

namespace MemRegion

/-- `Display` -/
def fmt : MemRegion → List Char
  | .kernel => "kernel".toList
  | .plugin id => "plugin:".toList ++ Nat.toDigits 10 id

def fromStr (s : List Char) : Except ParseError MemRegion :=
  let lower := (trim isWhitespace s).map toLowercase
  if lower = "kernel".toList then .ok .kernel
  else match stripPrefix "plugin:".toList lower with
    | some idStr => match readNat u128Size idStr with
      | some id => .ok (.plugin id)
      | none => .error ⟨s⟩
    | none => .error ⟨s⟩

/-- the ways to write a region, with letters of either case, zeros and one plus sign -/
def Written (t : List Char) : MemRegion → Prop
  | .kernel => t.map toLowercase = "kernel".toList
  | .plugin id => id < u128Size ∧ ∃ word ds, word.map toLowercase = "plugin:".toList ∧
      (t = word ++ ds ∨ t = word ++ '+' :: ds) ∧ ds ≠ [] ∧ (∀ c ∈ ds, c.isDigit = true) ∧
      Nat.ofDigitChars 10 ds 0 = id

/-- digits and a sign have no other case -/
theorem number_lt {num ds : List Char} (hnum : num = ds ∨ num = '+' :: ds)
    (hds : ∀ c ∈ ds, c.isDigit = true) : ∀ c ∈ num, c.toNat < 65 := by
  have hlt : ∀ c ∈ ds, c.toNat < 65 := by
    intro c hc
    have h := toNat_of_isDigit (hds c hc)
    omega
  rcases hnum with rfl | rfl
  · exact hlt
  · exact List.forall_mem_cons.mpr ⟨by decide, hlt⟩

theorem written_iff (t : List Char) (id : PluginId) : Written t (.plugin id) ↔
    ∃ idStr, t.map toLowercase = "plugin:".toList ++ idStr ∧ readNat u128Size idStr = some id := by
  have hpos : 0 < u128Size := by decide
  constructor
  · rintro ⟨hid, word, ds, hword, ht, hne, hds, hval⟩
    obtain ⟨num, hnum, rfl⟩ : ∃ num, (num = ds ∨ num = '+' :: ds) ∧ t = word ++ num := by
      rcases ht with ht | ht
      · exact ⟨ds, Or.inl rfl, ht⟩
      · exact ⟨'+' :: ds, Or.inr rfl, ht⟩
    refine ⟨num, ?_, (readNat_eq_some_iff hpos).mpr ⟨ds, hnum, hne, hds, hval, hid⟩⟩
    rw [List.map_append, hword, map_toLowercase_of_lt (number_lt hnum hds)]
  · intro ⟨idStr, ht, hread⟩
    obtain ⟨ds, hnum, hne, hds, hval, hid⟩ := (readNat_eq_some_iff hpos).mp hread
    obtain ⟨word, num, rfl, hword, hnum'⟩ := List.map_eq_append_iff.mp ht
    obtain rfl : num = idStr := eq_of_toLowercase hnum' (number_lt hnum hds)
    refine ⟨hid, word, ds, hword, ?_, hne, hds, hval⟩
    rcases hnum with rfl | rfl
    · exact Or.inl rfl
    · exact Or.inr rfl

theorem Written.solid {t : List Char} {r : MemRegion} (h : Written t r) : Solid t := by
  apply solid_of_map
  cases r with
  | kernel =>
    have h : t.map toLowercase = "kernel".toList := h
    rw [h]
    exact .of_ends rfl rfl (by decide) (by decide)
  | plugin id =>
    obtain ⟨idStr, ht, hread⟩ := (written_iff t id).mp h
    obtain ⟨ds, hnum, hne, hds, _, _⟩ := (readNat_eq_some_iff (by decide)).mp hread
    have hlast : ("plugin:".toList ++ idStr).getLast? = some (ds.getLast hne) := by
      rcases hnum with rfl | rfl
      · rw [List.getLast?_append_of_ne_nil _ hne, List.getLast?_eq_getLast_of_ne_nil hne]
      · rw [← List.singleton_append, ← List.append_assoc, List.getLast?_append_of_ne_nil _ hne,
          List.getLast?_eq_getLast_of_ne_nil hne]
    have hdigit := toNat_of_isDigit (hds _ (List.getLast_mem hne))
    rw [ht]
    refine .of_ends rfl hlast (by decide) ?_
    unfold isWhitespace
    simp
    omega

theorem fromStr_ok_iff (s : List Char) (r : MemRegion) :
    fromStr s = .ok r ↔ Written (trim isWhitespace s) r := by
  unfold fromStr
  generalize trim isWhitespace s = t
  by_cases hk : t.map toLowercase = "kernel".toList
  · rw [if_pos hk]
    cases r with
    | kernel => exact iff_of_true rfl hk
    | plugin id =>
      refine iff_of_false nofun fun hw => ?_
      obtain ⟨idStr, ht, _⟩ := (written_iff t id).mp hw
      cases congrArg List.head? (hk.symm.trans ht)
  · rw [if_neg hk]
    cases r with
    | kernel =>
      refine iff_of_false ?_ hk
      split
      · split <;> nofun
      · nofun
    | plugin id =>
      rw [written_iff]
      cases hst : stripPrefix "plugin:".toList (t.map toLowercase) with
      | none =>
        refine iff_of_false nofun ?_
        rintro ⟨idStr, ht, _⟩
        cases hst.symm.trans (stripPrefix_eq_some_iff.mpr ht)
      | some idStr =>
        have ht := stripPrefix_eq_some_iff.mp hst
        have honly : (∃ rest, t.map toLowercase = "plugin:".toList ++ rest ∧
            readNat u128Size rest = some id) ↔ readNat u128Size idStr = some id := by
          rw [ht]
          constructor
          · rintro ⟨rest, e, hread⟩
            rwa [List.append_cancel_left e]
          · exact fun hread => ⟨idStr, rfl, hread⟩
        rw [honly]
        dsimp only
        split
        · rename_i n hn
          rw [hn]
          simp
        · rename_i hn
          rw [hn]
          exact iff_of_false nofun nofun

end MemRegion

/-- **Main result**: the texts that are read as a region are the ways to write it with blanks before
and behind, every other text comes back as it was given, and what is displayed is read again. -/
theorem mem_region_text :
    (∀ s r, MemRegion.fromStr s = .ok r ↔ ∃ t, Around s t ∧ MemRegion.Written t r) ∧
      (∀ s, (∃ r, MemRegion.fromStr s = .ok r) ∨ MemRegion.fromStr s = .error ⟨s⟩) ∧
      MemRegion.fromStr MemRegion.kernel.fmt = .ok .kernel ∧
      ∀ id < u128Size, MemRegion.fromStr (MemRegion.plugin id).fmt = .ok (.plugin id) := by
  have haround : ∀ {t r}, MemRegion.Written t r → MemRegion.fromStr t = .ok r := by
    intro t r hw
    have hself : Around t t := ⟨[], [], (List.append_nil t).symm, nofun, nofun⟩
    rw [MemRegion.fromStr_ok_iff, hself.trim hw.solid]
    exact hw
  refine ⟨fun s r => ?_, fun s => ?_, haround rfl, fun id hid => haround ?_⟩
  · rw [MemRegion.fromStr_ok_iff]
    constructor
    · exact fun hw => ⟨_, (around_trim s).1, hw⟩
    · rintro ⟨t, ha, hw⟩
      rwa [ha.trim hw.solid]
  · unfold MemRegion.fromStr
    dsimp only
    split
    · exact Or.inl ⟨_, rfl⟩
    · split
      · split
        · exact Or.inl ⟨_, rfl⟩
        · exact Or.inr rfl
      · exact Or.inr rfl
  · exact ⟨hid, "plugin:".toList, Nat.toDigits 10 id, rfl, Or.inl rfl, Nat.toDigits_ne_nil,
      fun _ hc => Nat.isDigit_of_mem_toDigits (by decide) (by decide) hc,
      Nat.ofDigitChars_ten_toDigits⟩

/-! ## words -/

/-- the value of the word that the text is in lower case -/
def fromWords {α : Type*} (words : List (String × α)) (lower s : List Char) : Except ParseError α :=
  match words.find? fun e => e.1.toList == lower with
  | some e => .ok e.2
  | none => .error ⟨s⟩

/-- a list without two values for a word -/
theorem fromWords_ok_iff {α : Type*} {words : List (String × α)}
    (hw : (words.map Prod.fst).Nodup) {lower s : List Char} {x : α} :
    fromWords words lower s = .ok x ↔ ∃ w, (w, x) ∈ words ∧ w.toList = lower := by
  unfold fromWords
  cases hf : words.find? fun e => e.1.toList == lower with
  | none =>
    refine iff_of_false nofun ?_
    rintro ⟨w, hmem, hlower⟩
    have hnot := List.find?_eq_none.mp hf _ hmem
    exact hnot (beq_iff_eq.mpr hlower)
  | some e =>
    have hmem := List.mem_of_find?_eq_some hf
    have hlower : e.1.toList = lower := by
      have heq := List.find?_some hf
      exact beq_iff_eq.mp heq
    constructor
    · intro h
      cases h
      exact ⟨e.1, hmem, hlower⟩
    · rintro ⟨w, hmem', hlower'⟩
      have hword : e.1 = w := String.toList_injective (hlower.trans hlower'.symm)
      have he : e = (w, x) := List.inj_on_of_nodup_map hw hmem hmem' hword
      rw [he]

namespace Right

def name : Right → String
  | .read => "read"
  | .write => "write"
  | .execute => "execute"
  | .create => "create"
  | .delete => "delete"
  | .send => "send"
  | .receive => "receive"
  | .delegate => "delegate"
  | .revoke => "revoke"
  | .declassify => "declassify"

def shortName : Right → Char
  | .read => 'r'
  | .write => 'w'
  | .execute => 'x'
  | .create => 'c'
  | .delete => 'd'
  | .send => 's'
  | .receive => 'v'
  | .delegate => 'g'
  | .revoke => 'k'
  | .declassify => 'y'

def words : List (String × Right) :=
  [("read", .read), ("r", .read), ("write", .write), ("w", .write), ("execute", .execute),
    ("x", .execute), ("create", .create), ("c", .create), ("delete", .delete), ("d", .delete),
    ("send", .send), ("s", .send), ("receive", .receive), ("v", .receive),
    ("delegate", .delegate), ("g", .delegate), ("revoke", .revoke), ("k", .revoke),
    ("declassify", .declassify), ("y", .declassify)]

/-- blanks at the ends are not taken off -/
def fromStr (s : List Char) : Except ParseError Right :=
  fromWords words (s.map toLowercase) s

end Right

namespace SecurityLevel

def name : SecurityLevel → String
  | .Public => "public"
  | .Internal => "internal"
  | .Confidential => "confidential"
  | .Secret => "secret"

def words : List (String × SecurityLevel) :=
  [("public", .Public), ("0", .Public), ("internal", .Internal), ("1", .Internal),
    ("confidential", .Confidential), ("2", .Confidential), ("secret", .Secret), ("3", .Secret)]

/-- blanks at the ends are not taken off -/
def fromStr (s : List Char) : Except ParseError SecurityLevel :=
  fromWords words (s.map toLowercase) s

end SecurityLevel

namespace PolicyDecision

def name : PolicyDecision → String
  | .permit => "permit"
  | .deny => "deny"
  | .indeterminate => "indeterminate"

def words : List (String × PolicyDecision) :=
  [("permit", .permit), ("deny", .deny), ("indeterminate", .indeterminate)]

def fromStr (s : List Char) : Except ParseError PolicyDecision :=
  fromWords words ((trim isWhitespace s).map toLowercase) s

end PolicyDecision

inductive MsgState
  | sent | queued | delivered | dropped
  deriving DecidableEq, Repr

namespace MsgState

def name : MsgState → String
  | .sent => "sent"
  | .queued => "queued"
  | .delivered => "delivered"
  | .dropped => "dropped"

def words : List (String × MsgState) :=
  [("sent", .sent), ("queued", .queued), ("delivered", .delivered), ("dropped", .dropped)]

def fromStr (s : List Char) : Except ParseError MsgState :=
  fromWords words ((trim isWhitespace s).map toLowercase) s

end MsgState

/-- behind the blanks, a text is one of the words -/
theorem fromWords_trim_ok_iff {α : Type*} {words : List (String × α)}
    (hw : (words.map Prod.fst).Nodup) {name : α → String}
    (hname : ∀ w x, (w, x) ∈ words ↔ w = name x)
    (hsolid : ∀ x, Solid (name x).toList) (s : List Char) (x : α) :
    fromWords words ((trim isWhitespace s).map toLowercase) s = .ok x ↔
      ∃ t, Around s t ∧ t.map toLowercase = (name x).toList := by
  rw [fromWords_ok_iff hw]
  constructor
  · intro ⟨w, hmem, hlower⟩
    rw [(hname w x).mp hmem] at hlower
    exact ⟨_, (around_trim s).1, hlower.symm⟩
  · intro ⟨t, ha, ht⟩
    have hst : Solid t := solid_of_map (ht ▸ hsolid x)
    exact ⟨name x, (hname _ x).mpr rfl, by rw [ha.trim hst, ht]⟩

/-- **Main result**: a right and a level are read from their name or their character, nothing around
it; a decision and a state of a message from their name, with blanks around it or not; all in
letters of either case. -/
theorem words_text :
    (∀ s x, Right.fromStr s = .ok x ↔
      s.map toLowercase = x.name.toList ∨ s.map toLowercase = [x.shortName]) ∧
      (∀ s l, SecurityLevel.fromStr s = .ok l ↔
        s.map toLowercase = l.name.toList ∨ s = [Nat.digitChar l.toU8]) ∧
      (∀ s d, PolicyDecision.fromStr s = .ok d ↔
        ∃ t, Around s t ∧ t.map toLowercase = d.name.toList) ∧
      ∀ s m, MsgState.fromStr s = .ok m ↔
        ∃ t, Around s t ∧ t.map toLowercase = m.name.toList := by
  refine ⟨fun s x => ?_, fun s l => ?_, ?_, ?_⟩
  · refine (fromWords_ok_iff (by decide)).trans ?_
    cases x <;> simp [Right.words, Right.name, Right.shortName, eq_comm]
  · have hword : ∀ lower : List Char, (∃ w, (w, l) ∈ SecurityLevel.words ∧ w.toList = lower) ↔
        lower = l.name.toList ∨ lower = [Nat.digitChar l.toU8] := by
      intro lower
      cases l <;> simp [SecurityLevel.words, SecurityLevel.name, SecurityLevel.toU8, eq_comm] <;>
        exact Iff.rfl
    have hlt : (Nat.digitChar l.toU8).toNat < 65 := by
      cases l <;> decide
    have hdigit : s.map toLowercase = [Nat.digitChar l.toU8] ↔ s = [Nat.digitChar l.toU8] := by
      constructor
      · exact fun h => eq_of_toLowercase h (List.forall_mem_singleton.mpr hlt)
      · rintro rfl
        exact map_toLowercase_of_lt (List.forall_mem_singleton.mpr hlt)
    rw [← hdigit, ← hword]
    exact fromWords_ok_iff (by decide)
  · apply fromWords_trim_ok_iff (by decide)
    · intro w d
      cases d <;> simp [PolicyDecision.words, PolicyDecision.name]
    · intro d
      cases d <;> exact .of_ends rfl rfl (by decide) (by decide)
  · apply fromWords_trim_ok_iff (by decide)
    · intro w m
      cases m <;> simp [MsgState.words, MsgState.name]
    · intro m
      cases m <;> exact .of_ends rfl rfl (by decide) (by decide)

/-! ## sets of rights -/

/-- the loop of `Display`: a comma and a blank in front of every right but the first -/
def fmtLoop : Bool → List Right → List Char
  | _, [] => []
  | first, x :: xs => (if first then [] else ", ".toList) ++ x.name.toList ++ fmtLoop false xs

/-- `Display`: the rights in the order of the iterator, between braces -/
def Rights.fmt (r : Rights) : List Char :=
  "\x7b".toList ++ fmtLoop true r.toVec ++ "\x7d".toList

/-- the text without its braces, cut at the commas; what stands between them, without blanks, is
read as a right -/
def readBack (text : List Char) : List Right :=
  ((text.drop 1).dropLast.splitOn ',').filterMap fun w =>
    (Right.fromStr (trim isWhitespace w)).toOption

theorem fmtLoop_eq (w : List Char) (xs : List Right) :
    w ++ fmtLoop false xs = [','].intercalate (w :: xs.map fun x => ' ' :: x.name.toList) := by
  induction xs generalizing w with
  | nil => simp [fmtLoop]
  | cons x xs ih =>
    rw [List.map_cons, List.intercalate_cons_cons, ← ih]
    simp [fmtLoop]

theorem Right.name_solid (x : Right) : Solid x.name.toList := by
  cases x <;> exact .of_ends rfl rfl (by decide) (by decide)

theorem Right.fromStr_name (x : Right) : Right.fromStr x.name.toList = .ok x := by
  cases x <;> rfl

/-- a name is read back, with a blank in front of it or not -/
theorem Right.fromStr_trim {w : List Char} {x : Right}
    (h : w = x.name.toList ∨ w = ' ' :: x.name.toList) :
    (Right.fromStr (trim isWhitespace w)).toOption = some x := by
  have ha : Around w x.name.toList := by
    rcases h with rfl | rfl
    · exact ⟨[], [], (List.append_nil _).symm, nofun, nofun⟩
    · exact ⟨[' '], [], (List.append_nil _).symm, List.forall_mem_singleton.mpr rfl, nofun⟩
  rw [ha.trim x.name_solid, x.fromStr_name]
  rfl

theorem readBack_fmt (r : Rights) : readBack r.fmt = r.toVec := by
  unfold readBack Rights.fmt
  generalize r.toVec = xs
  have hinside : ∀ t : List Char,
      (("\x7b".toList ++ t ++ "\x7d".toList).drop 1).dropLast = t := by
    intro t
    show (t ++ "\x7d".toList).dropLast = t
    exact List.dropLast_concat
  rw [hinside]
  cases xs with
  | nil => rfl
  | cons x xs =>
    have hloop : fmtLoop true (x :: xs) = x.name.toList ++ fmtLoop false xs := rfl
    have hcomma : ∀ w ∈ x.name.toList :: xs.map fun y => ' ' :: y.name.toList, ',' ∉ w := by
      have hname : ∀ y : Right, ',' ∉ y.name.toList := by
        intro y
        cases y <;> decide
      refine List.forall_mem_cons.mpr ⟨hname x, List.forall_mem_map.mpr fun y _ => ?_⟩
      exact fun h => (List.mem_cons.mp h).elim (by decide) (hname y)
    have hrest : (xs.map fun y => ' ' :: y.name.toList).filterMap
        (fun w => (Right.fromStr (trim isWhitespace w)).toOption) = xs := by
      rw [List.filterMap_map]
      conv_rhs => rw [← List.filterMap_some (l := xs)]
      exact List.filterMap_congr fun y _ => Right.fromStr_trim (Or.inr rfl)
    rw [hloop, fmtLoop_eq, List.splitOn_intercalate _ hcomma (List.cons_ne_nil _ _),
      List.filterMap_cons, Right.fromStr_trim (Or.inl rfl), hrest]

/-- **Main result**: the text of a set of rights, cut at the commas and read with the parser of
rights once the blanks are off, gives the rights in their order, and so the word; no two sets have
the same text. -/
theorem rights_text :
    (∀ r : Rights, readBack r.fmt = r.toVec ∧ Rights.fromSlice (readBack r.fmt) = r) ∧
      Function.Injective Rights.fmt := by
  have hback : ∀ r : Rights, Rights.fromSlice (readBack r.fmt) = r := by
    intro r
    rw [readBack_fmt]
    apply Rights.eq_of_contains
    intro x
    rw [Rights.contains_fromSlice, r.mem_toVec]
  refine ⟨fun r => ⟨readBack_fmt r, hback r⟩, fun r r' h => ?_⟩
  rw [← hback r, h, hback r']

end LionCore
