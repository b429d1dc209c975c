import TypedContent.Text.Basic

/-!
# Texts as bytes

Offsets count bytes of the UTF-8 form. A byte is written as the character
that has its code. Then a character of ASCII is its own only byte, and all
bytes of any other character are outside ASCII (`encoding_cases`). So
whoever looks for characters of ASCII may go from byte to byte.

An offset is a *boundary* if a character starts there or the text ends
there. Any other offset up to the end of the text lies inside a character,
and the bytes from there to the next boundary are outside ASCII
(`exists_drop_utf8`).
-/

namespace TypedContent

open List

namespace Text

variable {cs : List Char} {c d : Char}

/-! ## Offsets -/

theorem takeBytes_append (before rest : List Char) :
    takeBytes (byteLength before) (before ++ rest) = before := by
  induction before with
  | nil => cases rest <;> rfl
  | cons c before ih =>
    have hpos := c.utf8Size_pos
    obtain ⟨n, hn⟩ : ∃ n, byteLength (c :: before) = n + 1 :=
      Nat.exists_eq_succ_of_ne_zero (by simp; omega)
    have hrest : n + 1 - c.utf8Size = byteLength before := by
      rw [← hn, byteLength_cons]
      omega
    rw [hn, cons_append, takeBytes, hrest, ih]

theorem dropBytes_append (before rest : List Char) :
    dropBytes (byteLength before) (before ++ rest) = rest := by
  have hwhole := takeBytes_append_dropBytes (byteLength before) (before ++ rest)
  rw [takeBytes_append] at hwhole
  exact append_cancel_left hwhole

theorem suffixAt?_eq_some_iff {n : Nat} {rest : List Char} :
    suffixAt? n cs = some rest ↔ ∃ before,
      cs = before ++ rest ∧ byteLength before = n := by
  rw [suffixAt?]
  constructor
  · intro h
    split at h
    · rename_i hn
      obtain rfl := Option.some.inj h
      exact ⟨takeBytes n cs, (takeBytes_append_dropBytes n cs).symm, hn⟩
    · cases h
  · rintro ⟨before, rfl, rfl⟩
    rw [takeBytes_append, dropBytes_append, if_pos rfl]

theorem byteLength_pos (h : cs ≠ []) : 0 < byteLength cs := by
  obtain ⟨c, cs, rfl⟩ := exists_cons_of_ne_nil h
  exact Nat.add_pos_left c.utf8Size_pos _

/-- A character starts at byte offset `n`, or the text ends there. -/
def IsBoundary (cs : List Char) (n : Nat) : Prop :=
  (suffixAt? n cs).isSome = true

instance (cs : List Char) (n : Nat) : Decidable (IsBoundary cs n) :=
  inferInstanceAs (Decidable (_ = true))

theorem isBoundary_append (before after : List Char) :
    IsBoundary (before ++ after) (byteLength before) := by
  rw [IsBoundary, suffixAt?_eq_some_iff.2 ⟨before, rfl, rfl⟩, Option.isSome_some]

/-! ## Bytes -/

/-- The bytes of a character. -/
def encoding (c : Char) : List Char :=
  (String.utf8EncodeChar c).map Char.ofUInt8

/-- The bytes of the UTF-8 form. -/
def utf8 (cs : List Char) : List Char :=
  (String.ofList cs).toByteArray.data.toList.map Char.ofUInt8

theorem utf8_eq_flatMap (cs : List Char) : utf8 cs = cs.flatMap encoding := by
  simp [utf8, List.utf8Encode, map_flatMap]
  rfl

@[simp] theorem utf8_nil : utf8 [] = [] := by
  simp [utf8_eq_flatMap]

@[simp] theorem utf8_cons (c : Char) (cs : List Char) :
    utf8 (c :: cs) = encoding c ++ utf8 cs := by
  simp [utf8_eq_flatMap]

theorem utf8_append (xs ys : List Char) : utf8 (xs ++ ys) = utf8 xs ++ utf8 ys := by
  simp [utf8_eq_flatMap]

@[simp] theorem length_encoding (c : Char) : (encoding c).length = c.utf8Size := by
  simp [encoding]

@[simp] theorem length_utf8 (cs : List Char) : (utf8 cs).length = byteLength cs := by
  induction cs with
  | nil => simp
  | cons c cs ih => simp [ih]

/-- A character is its own only byte, or all of its bytes are outside
ASCII. -/
theorem encoding_cases (c : Char) :
    (c.toNat < 128 ∧ encoding c = [c])
      ∨ (128 ≤ c.toNat ∧ ∀ b ∈ encoding c, 128 ≤ b.toNat) := by
  by_cases h : c.toNat < 128
  · have hle : c.val.toNat ≤ 0x7f := Nat.le_of_lt_succ h
    have hbyte : Char.ofUInt8 c.toUInt8 = c := by
      refine Char.ext (UInt32.toNat_inj.1 ?_)
      show c.toNat % 256 = c.toNat
      omega
    refine .inl ⟨h, ?_⟩
    simp only [encoding, String.utf8EncodeChar, if_pos hle]
    exact congrArg (fun b => [b]) hbyte
  · have hle : ¬ c.val.toNat ≤ 0x7f := fun hle => h (Nat.lt_succ_of_le hle)
    refine .inr ⟨by omega, forall_mem_map.2 fun b hb => ?_⟩
    show 128 ≤ b.toNat
    simp only [String.utf8EncodeChar, if_neg hle] at hb
    split at hb
    · simp only [mem_cons, not_mem_nil, or_false] at hb
      rcases hb with rfl | rfl <;> simp only [UInt8.toNat_ofNat'] <;> omega
    · split at hb <;> simp only [mem_cons, not_mem_nil, or_false] at hb
      · rcases hb with rfl | rfl | rfl <;> simp only [UInt8.toNat_ofNat'] <;> omega
      · rcases hb with rfl | rfl | rfl | rfl <;> simp only [UInt8.toNat_ofNat'] <;> omega

theorem encoding_ascii (h : c.toNat < 128) : encoding c = [c] :=
  (encoding_cases c).elim (·.2) fun hhigh => absurd h (Nat.not_lt.2 hhigh.1)

theorem utf8_cons_ascii (h : c.toNat < 128) (cs : List Char) :
    utf8 (c :: cs) = c :: utf8 cs := by
  rw [utf8_cons, encoding_ascii h, singleton_append]

theorem utf8Size_of_ascii (h : c.toNat < 128) : c.utf8Size = 1 := by
  rw [← length_encoding, encoding_ascii h, length_singleton]

theorem ne_ascii (hc : 128 ≤ c.toNat) (hd : d.toNat < 128) : c ≠ d := by
  rintro rfl
  omega

/-- A byte of ASCII belongs to the character that it is. -/
theorem ne_of_mem_encoding (hd : d.toNat < 128) (h : c ≠ d) :
    ∀ b ∈ encoding c, b ≠ d := by
  intro b hb
  rcases encoding_cases c with ⟨-, hsingle⟩ | ⟨-, hbytes⟩
  · rw [hsingle, mem_singleton] at hb
    rwa [hb]
  · exact ne_ascii (hbytes b hb) hd

theorem exists_encoding_cons (c : Char) :
    ∃ b more, encoding c = b :: more ∧ ∀ x ∈ more, 128 ≤ x.toNat := by
  rcases encoding_cases c with ⟨-, hsingle⟩ | ⟨-, hbytes⟩
  · exact ⟨c, [], hsingle, by simp⟩
  · obtain ⟨b, more, hcons⟩ :=
      exists_cons_of_length_pos (by rw [length_encoding]; exact c.utf8Size_pos)
    exact ⟨b, more, hcons, fun x hx => hbytes x (hcons ▸ mem_cons_of_mem b hx)⟩

/-- At either end of a text, a byte of ASCII is a character. -/
theorem head?_utf8 (hd : d.toNat < 128) (cs : List Char) :
    (utf8 cs).head? = some d ↔ cs.head? = some d := by
  cases cs with
  | nil => simp
  | cons c cs =>
    rcases encoding_cases c with ⟨-, hsingle⟩ | ⟨hhigh, hbytes⟩
    · simp [hsingle]
    · obtain ⟨b, more, hcons, -⟩ := exists_encoding_cons c
      have hb := hbytes b (hcons ▸ mem_cons_self)
      simp [hcons, ne_ascii hb hd, ne_ascii hhigh hd]

theorem getLast?_utf8 (hd : d.toNat < 128) (cs : List Char) :
    (utf8 cs).getLast? = some d ↔ cs.getLast? = some d := by
  obtain rfl | ⟨cs, c, rfl⟩ := eq_nil_or_concat cs
  · simp
  · rw [concat_eq_append]
    rcases encoding_cases c with ⟨-, hsingle⟩ | ⟨hhigh, hbytes⟩
    · simp [utf8_append, hsingle]
    · have hne : encoding c ≠ [] :=
        ne_nil_of_length_pos (by rw [length_encoding]; exact c.utf8Size_pos)
      have hb := hbytes _ (getLast_mem hne)
      simp [utf8_append, getLast?_append, getLast?_eq_some_getLast hne, ne_ascii hb hd,
        ne_ascii hhigh hd]

/-- From any offset to the next boundary, all bytes are outside ASCII. -/
theorem exists_drop_utf8 (n : Nat) (cs : List Char) :
    ∃ inside, (utf8 cs).drop n = inside ++ utf8 (dropBytes n cs)
      ∧ (∀ b ∈ inside, 128 ≤ b.toNat)
      ∧ byteLength (takeBytes n cs) = min n (byteLength cs) + inside.length := by
  fun_induction takeBytes n cs with
  | case1 cs => exact ⟨[], by cases cs <;> simp [dropBytes], by simp, by simp⟩
  | case2 n hn => exact ⟨[], by simp [dropBytes], by simp, by simp⟩
  | case3 n c cs ih =>
    rw [dropBytes, utf8_cons, byteLength_cons, byteLength_cons]
    by_cases hc : c.utf8Size ≤ n + 1
    · obtain ⟨inside, hdrop, hinside, htake⟩ := ih
      refine ⟨inside, ?_, hinside, by omega⟩
      rw [drop_append, length_encoding, drop_of_length_le (by simpa using hc),
        nil_append, hdrop]
    · -- the offset is inside `c`, which then has more than one byte
      have hzero : n + 1 - c.utf8Size = 0 := by omega
      have hdrop : dropBytes 0 cs = cs := by cases cs <;> rfl
      have htake : takeBytes 0 cs = [] := by cases cs <;> rfl
      refine ⟨(encoding c).drop (n + 1), ?_, fun b hb => ?_, ?_⟩
      · rw [drop_append, length_encoding, hzero, hdrop, drop_zero]
      · rcases encoding_cases c with ⟨hascii, -⟩ | ⟨-, hbytes⟩
        · rw [utf8Size_of_ascii hascii] at hc
          omega
        · exact hbytes b (mem_of_mem_drop hb)
      · rw [hzero, htake, length_drop, length_encoding, byteLength_nil]
        omega

/-- A byte of ASCII is a character. -/
theorem getElem?_utf8_eq_some_iff (hd : d.toNat < 128) {n : Nat} :
    (utf8 cs)[n]? = some d ↔ ∃ before after,
      cs = before ++ d :: after ∧ byteLength before = n := by
  constructor
  · intro h
    obtain ⟨inside, hdrop, hinside, htake⟩ := exists_drop_utf8 n cs
    obtain ⟨hlt, -⟩ := List.getElem?_eq_some_iff.1 h
    rw [← head?_drop, hdrop] at h
    obtain rfl : inside = [] := by
      cases inside with
      | nil => rfl
      | cons b inside =>
        exact absurd (Option.some.inj h) (ne_ascii (hinside b mem_cons_self) hd)
    rw [nil_append, head?_utf8 hd] at h
    obtain ⟨rest, hrest⟩ := head?_eq_some_iff.1 h
    rw [length_utf8] at hlt
    exact ⟨takeBytes n cs, rest, by
      rw [← hrest, takeBytes_append_dropBytes], by simp only [htake, length_nil]; omega⟩
  · rintro ⟨before, after, rfl, rfl⟩
    rw [utf8_append, utf8_cons_ascii hd, ← length_utf8,
      getElem?_append_right (Nat.le_refl _), Nat.sub_self, getElem?_cons_zero]

end Text

end TypedContent
