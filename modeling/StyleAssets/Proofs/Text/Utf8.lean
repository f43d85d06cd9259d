import Mathlib
import StyleAssets.Text.Utf8

/-!
# Bytes and characters

* `Utf8.eq_of_mem_encodeChar` — a byte below 128 stands for one character only.
* `Utf8.small_le_code` — a character of several bytes is not one of the first 128.
* `Utf8.slash_notMem_lossy` — so only the byte of `/` gives the character `/`, in ill-formed bytes
  too.
-/

namespace StyleAssets.Utf8

variable {b : UInt8} {lead : Lead} {rest bytes : Bytes}

/-! ## Encoding -/

theorem encode_append (t t' : Text) : encode (t ++ t') = encode t ++ encode t' :=
  List.flatMap_append

/-- A byte below 128 stands for one character only. -/
theorem eq_of_mem_encodeChar {c : Char} (hb : b.toNat < 0x80) (h : b ∈ String.utf8EncodeChar c) :
    c.val.toNat = b.toNat := by
  have hhigh : ∀ n : Nat, 0x80 ≤ n → n < 0x100 → b ≠ UInt8.ofNat n := by
    intro n hlow hhigh heq
    have hn := congrArg UInt8.toNat heq
    simp only [UInt8.toNat_ofNat'] at hn
    omega
  unfold String.utf8EncodeChar at h
  simp only at h
  split at h
  · have hn := congrArg UInt8.toNat (List.mem_singleton.1 h)
    simp only [UInt8.toNat_ofNat'] at hn
    omega
  · split at h
    · simp only [List.mem_cons, List.not_mem_nil, or_false] at h
      obtain h | h := h <;> exact absurd h (hhigh _ (by omega) (by omega))
    · split at h
      · simp only [List.mem_cons, List.not_mem_nil, or_false] at h
        obtain h | h | h := h <;> exact absurd h (hhigh _ (by omega) (by omega))
      · simp only [List.mem_cons, List.not_mem_nil, or_false] at h
        obtain h | h | h | h := h <;> exact absurd h (hhigh _ (by omega) (by omega))

/-! ## Decoding -/

/-- The number that the bytes of a character add up to. -/
def code (first : Nat) (more : Bytes) : Nat :=
  more.foldl (fun n t => n * 64 + (t.toNat - 0x80)) first

theorem code_cons (first : Nat) (t : UInt8) (more : Bytes) :
    code first (t :: more) = code (first * 64 + (t.toNat - 0x80)) more := by
  simp only [code, List.foldl_cons]

theorem le_code (first : Nat) (more : Bytes) : first ≤ code first more := by
  induction more generalizing first with
  | nil => exact Nat.le_refl first
  | cons t more ih =>
    have hstep : first ≤ first * 64 + (t.toNat - 0x80) := by omega
    rw [code_cons]
    exact Nat.le_trans hstep (ih _)

/-- The first byte leaves enough bits to a character, or the second one does. -/
theorem lead?_spec (h : lead? b = some lead) :
    lead.more = 1 ∧ 2 ≤ lead.bits ∨
      2 ≤ lead.more ∧ (1 ≤ lead.bits ∨ 0x90 ≤ lead.low.toNat) := by
  unfold lead? at h
  repeat' split at h
  all_goals cases h
  all_goals simp_all [UInt8.le_iff_toNat_le]
  all_goals omega

/-- **A character of several bytes is not one of the first 128.** -/
theorem small_le_code (hlead : lead? b = some lead)
    (hlength : (tails lead rest).length = lead.more) : 0x80 ≤ code lead.bits (tails lead rest) := by
  unfold tails at hlength ⊢
  split
  · obtain ⟨hmore, -⟩ | ⟨hmore, -⟩ := lead?_spec hlead
    · simp [hmore] at hlength
    · simp at hlength
      omega
  · rename_i t rest
    simp only at hlength
    split
    · rename_i hrange
      rw [if_pos hrange] at hlength
      rw [code_cons]
      have hlow : lead.low.toNat ≤ t.toNat := by
        simpa [UInt8.le_iff_toNat_le] using (Bool.and_eq_true_iff.1 hrange).1
      obtain ⟨-, hbits⟩ | ⟨hmore, hbits⟩ := lead?_spec hlead
      · have hcode := le_code (lead.bits * 64 + (t.toNat - 0x80))
          ((rest.take (lead.more - 1)).takeWhile fun t => 0x80 ≤ t && t ≤ 0xBF)
        omega
      · cases htail : (rest.take (lead.more - 1)).takeWhile fun t => 0x80 ≤ t && t ≤ 0xBF with
        | nil =>
          rw [htail] at hlength
          simp at hlength
          omega
        | cons u more =>
          have hcode := le_code ((lead.bits * 64 + (t.toNat - 0x80)) * 64 + (u.toNat - 0x80)) more
          rw [code_cons]
          omega
    · rename_i hrange
      rw [if_neg hrange] at hlength
      obtain ⟨hmore, -⟩ | ⟨hmore, -⟩ := lead?_spec hlead
      · simp [hmore] at hlength
      · simp at hlength
        omega

/-- A piece that stands for `/` starts with its byte. -/
theorem eq_slash_of_piece (h : (piece b rest).1 = some '/') : b = 0x2F := by
  have hnat : ∀ n, Char.ofNat n = '/' → n = 0x2F := by
    intro n hn
    unfold Char.ofNat at hn
    split at hn
    · exact congrArg (fun c : Char => c.val.toNat) hn
    · cases hn
  unfold piece at h
  split at h
  · have hb := hnat _ (Option.some.inj h)
    exact UInt8.toNat_inj.1 hb
  · split at h
    · cases h
    · rename_i lead hlead
      simp only at h
      split at h
      · rename_i hlength
        have hcode := small_le_code hlead (by simpa using hlength)
        have hslash := hnat _ (Option.some.inj h)
        rw [code, hslash] at hcode
        omega
      · cases h

theorem slash_notMem_lossy (h : 0x2F ∉ bytes) : '/' ∉ lossy bytes := by
  rw [lossy]
  induction bytes using pieces.induct with
  | case1 => simp [pieces]
  | case2 b rest ih =>
    rw [pieces, List.map_cons, List.mem_cons]
    rintro (hfirst | hmem)
    · cases hpiece : (piece b rest).1 with
      | none =>
        rw [hpiece] at hfirst
        cases hfirst
      | some c =>
        rw [hpiece] at hfirst
        obtain rfl : '/' = c := hfirst
        exact h (eq_slash_of_piece hpiece ▸ List.mem_cons_self)
    · refine ih (fun hrest => h ?_) hmem
      exact List.mem_cons_of_mem _ (List.mem_of_mem_drop hrest)

end StyleAssets.Utf8
