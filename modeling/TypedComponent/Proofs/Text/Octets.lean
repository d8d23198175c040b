import TypedComponent.Proofs.Text.Cells

/-!
The bytes of a text, each as the character of its number. The characters below
128 are their own bytes, and no byte of any other character is below 128; so
where such a character stands among the bytes it stands in the text.
-/

namespace TypedComponent

/-- A character that is its own only byte. -/
def IsSign (c : Char) : Prop := c.toNat < 128

instance (c : Char) : Decidable (IsSign c) := inferInstanceAs (Decidable (c.toNat < 128))

namespace Text

/-- The bytes of a text as characters. -/
def octets (text : Text) : Text := (utf8 text).map fun byte => Char.ofNat byte.toNat

variable {c sign : Char} {text rest : Text}

@[simp] theorem octets_nil : octets [] = [] := rfl

theorem octets_append (a b : Text) : octets (a ++ b) = octets a ++ octets b := by
  rw [octets, utf8_append, List.map_append]
  rfl

@[simp] theorem length_octets (text : Text) : (octets text).length = bytes text := by
  rw [octets, List.length_map, length_utf8]

theorem octets_single (c : Char) :
    octets [c] = (String.utf8EncodeChar c).map fun byte => Char.ofNat byte.toNat := by
  rw [octets, utf8, List.flatMap_singleton]

theorem toNat_ofNat_byte (byte : UInt8) : (Char.ofNat byte.toNat).toNat = byte.toNat := by
  have hlt : byte.toNat < 256 := byte.toNat_lt
  have hvalid : byte.toNat.isValidChar := .inl (by omega)
  rw [Char.ofNat, dif_pos hvalid]
  rfl

theorem octets_sign (h : IsSign c) : octets [c] = [c] := by
  have hval : c.val.toNat ≤ 127 := Nat.le_of_lt_succ h
  have hbyte : (UInt8.ofNat c.val.toNat).toNat = c.toNat := by
    rw [UInt8.toNat_ofNat', Nat.mod_eq_of_lt (by omega)]
    rfl
  rw [octets_single, String.utf8EncodeChar, if_pos hval, List.map_singleton, hbyte,
    Char.ofNat_toNat]

theorem octets_sign_cons (h : IsSign c) (rest : Text) : octets (c :: rest) = c :: octets rest := by
  have hall := octets_append [c] rest
  rwa [octets_sign h] at hall

/-- The first byte of a longer character says how many there are, and the others
go on with it; all of them have their highest bit set. -/
theorem octets_other (h : ¬ IsSign c) : ∀ d ∈ octets [c], ¬ IsSign d := by
  have hval : ¬ c.val.toNat ≤ 127 := fun hle => h (Nat.lt_succ_of_le hle)
  intro d hd
  rw [octets_single] at hd
  obtain ⟨byte, hbyte, rfl⟩ := List.mem_map.mp hd
  rw [IsSign, toNat_ofNat_byte, Nat.not_lt]
  have hhigh {n : Nat} (hlow : 128 ≤ n) (hlt : n < 256) : 128 ≤ (UInt8.ofNat n).toNat := by
    rwa [UInt8.toNat_ofNat', Nat.mod_eq_of_lt hlt]
  rw [String.utf8EncodeChar, if_neg hval] at hbyte
  split at hbyte
  · simp only [List.mem_cons, List.not_mem_nil, or_false] at hbyte
    rcases hbyte with rfl | rfl <;> exact hhigh (by omega) (by omega)
  · split at hbyte
    · simp only [List.mem_cons, List.not_mem_nil, or_false] at hbyte
      rcases hbyte with rfl | rfl | rfl <;> exact hhigh (by omega) (by omega)
    · simp only [List.mem_cons, List.not_mem_nil, or_false] at hbyte
      rcases hbyte with rfl | rfl | rfl | rfl <;> exact hhigh (by omega) (by omega)

theorem octets_cons_other (h : ¬ IsSign c) (rest : Text) : ∃ d run,
    octets (c :: rest) = d :: run ++ octets rest ∧ ¬ IsSign d ∧ ∀ e ∈ run, ¬ IsSign e := by
  have hother := octets_other h
  have hall : octets (c :: rest) = octets [c] ++ octets rest := octets_append [c] rest
  cases hbytes : octets [c] with
  | nil =>
    have hlength := length_octets [c]
    have hpos := c.utf8Size_pos
    rw [hbytes, bytes_cons, List.length_nil] at hlength
    omega
  | cons d run =>
    rw [hbytes] at hother hall
    exact ⟨d, run, hall, List.forall_mem_cons.mp hother⟩

/-- A sign among the bytes is a character of the text, and the bytes around it
are those of the parts around it. -/
theorem exists_of_octets (hsign : IsSign sign) {front behind : Text}
    (h : octets text = front ++ sign :: behind) :
    ∃ a b, text = a ++ sign :: b ∧ octets a = front ∧ octets b = behind := by
  induction text generalizing front with
  | nil => simp at h
  | cons c rest ih =>
    rw [show c :: rest = [c] ++ rest from rfl, octets_append] at h
    rcases List.append_eq_append_iff.mp h with ⟨between, hfront, hrest⟩ | ⟨between, hown, hbehind⟩
    · obtain ⟨a, b, rfl, ha, hb⟩ := ih hrest
      refine ⟨c :: a, b, rfl, ?_, hb⟩
      rw [hfront, ← ha]
      exact octets_append [c] a
    · cases between with
      | nil =>
        obtain ⟨a, b, rfl, ha, hb⟩ := ih (show octets rest = [] ++ sign :: behind from hbehind.symm)
        refine ⟨c :: a, b, rfl, ?_, hb⟩
        have hall : octets (c :: a) = octets [c] ++ octets a := octets_append [c] a
        rw [hall, ha, hown, List.append_nil, List.append_nil]
      | cons d between =>
        obtain ⟨rfl, -⟩ := List.cons.inj hbehind
        -- A sign is no byte of a longer character.
        have hc : IsSign c := Decidable.byContradiction fun hother =>
          octets_other hother sign (by rw [hown]; simp) hsign
        rw [octets_sign hc] at hown
        cases front with
        | cons e front => simp at hown
        | nil =>
          obtain ⟨rfl, rfl⟩ := List.cons.inj hown
          exact ⟨[], rest, rfl, rfl, (List.cons.inj hbehind).2.symm⟩

theorem mem_octets (hsign : IsSign sign) : sign ∈ octets text ↔ sign ∈ text := by
  constructor
  · intro h
    obtain ⟨front, behind, hbytes⟩ := List.append_of_mem h
    obtain ⟨a, b, rfl, -, -⟩ := exists_of_octets hsign hbytes
    exact List.mem_append_right a List.mem_cons_self
  · intro h
    obtain ⟨a, b, rfl⟩ := List.append_of_mem h
    rw [octets_append, octets_sign_cons hsign]
    exact List.mem_append_right _ List.mem_cons_self

theorem count_octets (hsign : IsSign sign) (text : Text) :
    text.octets.count sign = text.count sign := by
  induction text with
  | nil => rfl
  | cons c rest ih =>
    by_cases hc : IsSign c
    · rw [octets_sign_cons hc, List.count_cons, List.count_cons, ih]
    · have hsplit : octets (c :: rest) = octets [c] ++ octets rest :=
        octets_append [c] rest
      have hnone : (octets [c]).count sign = 0 :=
        List.count_eq_zero.mpr fun hmem => octets_other hc sign hmem hsign
      rw [hsplit, List.count_append, hnone, ih, Nat.zero_add,
        List.count_cons_of_ne (fun heq : c = sign => hc (heq ▸ hsign))]

theorem head?_octets (hsign : IsSign sign) :
    (octets text).head? = some sign ↔ text.head? = some sign := by
  constructor
  · intro h
    obtain ⟨behind, hbytes⟩ := List.head?_eq_some_iff.mp h
    obtain ⟨a, b, rfl, ha, -⟩ :=
      exists_of_octets hsign (show octets text = [] ++ sign :: behind from hbytes)
    have hnil : a = [] := eq_nil_of_bytes_eq_zero (by rw [← length_octets, ha]; rfl)
    rw [hnil]
    rfl
  · intro h
    obtain ⟨behind, rfl⟩ := List.head?_eq_some_iff.mp h
    rw [octets_sign_cons hsign]
    rfl

/-- A sign that is the byte at an offset is the character there. -/
theorem octets_getElem? (hsign : IsSign sign) {offset : Nat} :
    (octets text)[offset]? = some sign ↔
      ∃ a b, text = a ++ sign :: b ∧ bytes a = offset := by
  constructor
  · intro h
    obtain ⟨hlt, hget⟩ := List.getElem?_eq_some_iff.mp h
    have hsplit : octets text =
        (octets text).take offset ++ sign :: (octets text).drop (offset + 1) := by
      rw [← hget, ← List.drop_eq_getElem_cons, List.take_append_drop]
    obtain ⟨a, b, rfl, ha, -⟩ := exists_of_octets hsign hsplit
    refine ⟨a, b, rfl, ?_⟩
    rw [← length_octets, ha, List.length_take, Nat.min_eq_left (Nat.le_of_lt hlt)]
  · rintro ⟨a, b, rfl, rfl⟩
    rw [octets_append, octets_sign_cons hsign, ← length_octets,
      List.getElem?_append_right (Nat.le_refl _), Nat.sub_self]
    rfl

/-- The bytes of a text, behind some that end a longer character. -/
def EndsInOctets (bytes text : Text) : Prop :=
  ∃ run, bytes = run ++ octets text ∧ ∀ d ∈ run, ¬ IsSign d

namespace EndsInOctets

variable {front behind bytes : Text}

theorem refl (text : Text) : EndsInOctets (octets text) text := ⟨[], rfl, List.forall_mem_nil _⟩

theorem of_eq (h : octets text = bytes) : EndsInOctets bytes text := h ▸ refl text

theorem eq_nil (h : EndsInOctets [] text) : text = [] := by
  obtain ⟨run, hrun, -⟩ := h
  obtain ⟨-, hnil⟩ := List.append_eq_nil_iff.mp hrun.symm
  exact eq_nil_of_bytes_eq_zero (by rw [← length_octets, hnil]; rfl)

/-- A sign begins a character of its own, so the bytes are cut at it as the text is. -/
theorem split (h : EndsInOctets (front ++ sign :: behind) text) (hsign : IsSign sign) :
    ∃ a b, text = a ++ sign :: b ∧ EndsInOctets front a ∧ octets b = behind := by
  obtain ⟨run, hall, hrun⟩ := h
  rcases List.append_eq_append_iff.mp hall with ⟨between, rfl, hbehind⟩ | ⟨between, rfl, htext⟩
  · cases between with
    | nil =>
      obtain ⟨a, b, rfl, ha, hb⟩ :=
        exists_of_octets hsign (show octets text = [] ++ sign :: behind from hbehind.symm)
      refine ⟨a, b, rfl, ⟨front, by rw [ha, List.append_nil], ?_⟩, hb⟩
      simpa using hrun
    | cons d between =>
      obtain ⟨rfl, -⟩ := List.cons.inj hbehind
      exact absurd hsign (hrun sign (by simp))
  · obtain ⟨a, b, rfl, rfl, hb⟩ := exists_of_octets hsign htext
    exact ⟨a, b, rfl, ⟨run, rfl, hrun⟩, hb⟩

theorem sign_cons (h : EndsInOctets (sign :: behind) text) (hsign : IsSign sign) :
    ∃ rest, text = sign :: rest ∧ octets rest = behind := by
  obtain ⟨a, b, rfl, ha, hb⟩ := split (show EndsInOctets ([] ++ sign :: behind) text from h) hsign
  rw [ha.eq_nil]
  exact ⟨b, rfl, hb⟩

/-- The first byte of a text is a sign, or one of several of its first character. -/
theorem of_cons (h : octets text = c :: bytes) :
    ∃ d rest, text = d :: rest ∧ EndsInOctets bytes rest ∧
      (c = d ∧ bytes = octets rest ∨ ¬ IsSign c ∧ ¬ IsSign d) := by
  cases text with
  | nil => cases h
  | cons d rest =>
    refine ⟨d, rest, rfl, ?_⟩
    by_cases hd : IsSign d
    · rw [octets_sign_cons hd] at h
      obtain ⟨rfl, rfl⟩ := List.cons.inj h
      exact ⟨refl rest, .inl ⟨rfl, rfl⟩⟩
    · obtain ⟨first, run, hall, hfirst, hrun⟩ := octets_cons_other hd rest
      rw [hall] at h
      obtain ⟨rfl, rfl⟩ := List.cons.inj h
      exact ⟨⟨run, rfl, hrun⟩, .inr ⟨hfirst, hd⟩⟩

theorem cons (h : EndsInOctets (c :: bytes) text) :
    (¬ IsSign c ∧ EndsInOctets bytes text) ∨
      ∃ d rest, text = d :: rest ∧ EndsInOctets bytes rest ∧
        (c = d ∧ bytes = octets rest ∨ ¬ IsSign c ∧ ¬ IsSign d) := by
  obtain ⟨run, hall, hrun⟩ := h
  cases run with
  | nil => exact .inr (of_cons hall.symm)
  | cons d run =>
    obtain ⟨rfl, hbytes⟩ := List.cons.inj hall
    obtain ⟨hd, hrest⟩ := List.forall_mem_cons.mp hrun
    exact .inl ⟨hd, run, hbytes, hrest⟩

end EndsInOctets

end Text

end TypedComponent
