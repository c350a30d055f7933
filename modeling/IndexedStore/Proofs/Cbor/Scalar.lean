import Mathlib
import IndexedStore.Cbor.Reader
import IndexedStore.Cbor.Writer

/-! # Written numbers, texts and floats

The parts that hold no other item are read back from their written form, whatever stands
behind them.
-/
namespace IndexedStore.Cbor

theorem length_bigEndian (k n : Nat) : (bigEndian k n).length = k := by
  induction k generalizing n with
  | zero => rfl
  | succ k ih => rw [bigEndian, List.length_append, ih, List.length_singleton]

theorem fromBigEndian_bigEndian (k n : Nat) : fromBigEndian (bigEndian k n) = n % 256 ^ k := by
  induction k generalizing n with
  | zero => rw [Nat.pow_zero, Nat.mod_one]; rfl
  | succ k ih =>
    have hstep : fromBigEndian (bigEndian (k + 1) n) =
        256 * fromBigEndian (bigEndian k (n / 256)) + n % 256 := by
      simp [fromBigEndian, bigEndian]
    rw [hstep, ih, Nat.pow_succ', Nat.mod_mul]
    omega

theorem readNat_bigEndian {k n : Nat} (h : n < 256 ^ k) (tail : Bytes) :
    readNat k (bigEndian k n ++ tail) = some (n, tail) := by
  have hk := length_bigEndian k n
  unfold readNat
  rw [List.take_left' hk, List.drop_left' hk]
  simp only [hk, if_true]
  rw [fromBigEndian_bigEndian, Nat.mod_eq_of_lt h]

theorem toNat_initial {major info : Nat} (hm : major < 8) (hi : info < 32) :
    (UInt8.ofNat (32 * major + info)).toNat = 32 * major + info := by
  rw [UInt8.toNat_ofNat']
  omega

/-- The initial byte `b` announces an argument that stands in front of `tail`. A small one
stands in the initial byte itself. -/
structure Announces (b : UInt8) (rest : Bytes) (major n : Nat) (tail : Bytes) : Prop where
  major_eq : b.toNat / 32 = major
  argument : readArgument (b.toNat % 32) rest = some (.exactly n, tail)
  short_iff : b.toNat % 32 < 24 ↔ n < 24

theorem announces_short {major n : Nat} (hm : major < 8) (hn : n < 24) (tail : Bytes) :
    Announces (UInt8.ofNat (32 * major + n)) tail major n tail := by
  have hb := toNat_initial hm (Nat.lt_trans hn (by decide : 24 < 32))
  have hmod : (32 * major + n) % 32 = n := by omega
  refine ⟨by omega, ?_, by omega⟩
  rw [hb, hmod, readArgument, if_pos hn]

theorem announces_wide {major info k n : Nat} (hm : major < 8) (hi : 24 ≤ info) (hi' : info < 28)
    (hread : ∀ input, readArgument info input =
      (readNat k input).map fun r => (Argument.exactly r.1, r.2))
    (hk : n < 256 ^ k) (hn : ¬n < 24) (tail : Bytes) :
    Announces (UInt8.ofNat (32 * major + info)) (bigEndian k n ++ tail) major n tail := by
  have hb := toNat_initial hm (Nat.lt_trans hi' (by decide : 28 < 32))
  have hmod : (32 * major + info) % 32 = info := by omega
  refine ⟨by omega, ?_, by omega⟩
  rw [hb, hmod, hread, readNat_bigEndian hk]
  rfl

theorem announces_head {major n : Nat} (hm : major < 8) (hn : n < 2 ^ 64) (tail : Bytes) :
    ∃ b rest, head major n tail = b :: rest ∧ Announces b rest major n tail := by
  unfold head
  split
  · rename_i h
    exact ⟨_, _, rfl, announces_short hm h tail⟩
  · rename_i h
    split
    · exact ⟨_, _, rfl, announces_wide hm (by decide) (by decide) (fun _ => rfl) (by omega) h tail⟩
    · split
      · exact ⟨_, _, rfl, announces_wide hm (by decide) (by decide) (fun _ => rfl) (by omega) h tail⟩
      · split
        · exact ⟨_, _, rfl,
            announces_wide hm (by decide) (by decide) (fun _ => rfl) (by omega) h tail⟩
        · exact ⟨_, _, rfl,
            announces_wide hm (by decide) (by decide) (fun _ => rfl) (by omega) h tail⟩

theorem readChunk_append (b tail : Bytes) : readChunk b.length (b ++ tail) = some (b, tail) := by
  unfold readChunk
  rw [List.take_left' rfl, List.drop_left' rfl]
  simp

theorem utf8?_utf8 (s : String) : utf8? (utf8 s) = some s := by
  unfold utf8? utf8
  rw [Array.toArray_toList]
  show String.fromUTF8? s.toByteArray = some s
  rw [String.fromUTF8?, dif_pos s.isValidUTF8]
  rfl

theorem readSimple_writeFloat (x : Float) (tail : Bytes) :
    ∃ b rest, writeFloat x tail = b :: rest ∧ b.toNat / 32 = 7 ∧
      readSimple (b.toNat % 32) rest = some (.float x, tail) := by
  unfold writeFloat
  split
  · rename_i h
    refine ⟨_, _, rfl, by decide, ?_⟩
    have hx : widen half (narrow half x) = x := Float.toBits_inj.mp (by simpa [holds] using h)
    have hlt : (narrow half x).toNat < 256 ^ 2 := (narrow half x).isLt
    simp [readSimple, readNat_bigEndian hlt, hx]
  · split
    · rename_i h
      refine ⟨_, _, rfl, by decide, ?_⟩
      have hx : widen single (narrow single x) = x := Float.toBits_inj.mp (by simpa [holds] using h)
      have hlt : (narrow single x).toNat < 256 ^ 4 := (narrow single x).isLt
      simp [readSimple, readNat_bigEndian hlt, hx]
    · refine ⟨_, _, rfl, by decide, ?_⟩
      have hlt : x.toBits.toNat < 256 ^ 8 := x.toBits.toNat_lt
      simp [readSimple, readNat_bigEndian hlt, Float.ofBits_toBits]

theorem length_head_lt (major n : Nat) (tail : Bytes) :
    tail.length < (head major n tail).length := by
  unfold head
  split
  · exact Nat.lt_succ_self _
  · split
    · simp only [List.length_cons, List.length_append]
      omega
    · split
      · simp only [List.length_cons, List.length_append]
        omega
      · split <;> simp only [List.length_cons, List.length_append] <;> omega

theorem length_head_le (major n : Nat) (tail : Bytes) :
    (head major n tail).length ≤ tail.length + 9 := by
  unfold head
  split
  · exact Nat.add_le_add_left (by decide) _
  · split
    · simp only [List.length_cons, List.length_append, length_bigEndian]
      omega
    · split
      · simp only [List.length_cons, List.length_append, length_bigEndian]
        omega
      · split <;> simp only [List.length_cons, List.length_append, length_bigEndian] <;> omega

theorem length_writeFloat_lt (x : Float) (tail : Bytes) :
    tail.length < (writeFloat x tail).length := by
  unfold writeFloat
  split
  · simp only [List.length_cons, List.length_append]
    omega
  · split <;> simp only [List.length_cons, List.length_append] <;> omega

theorem length_writeFloat_le (x : Float) (tail : Bytes) :
    (writeFloat x tail).length ≤ tail.length + 9 := by
  unfold writeFloat
  split
  · simp only [List.length_cons, List.length_append, length_bigEndian]
    omega
  · split <;> simp only [List.length_cons, List.length_append, length_bigEndian] <;> omega

end IndexedStore.Cbor
