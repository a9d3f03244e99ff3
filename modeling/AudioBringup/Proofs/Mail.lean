import AudioBringup.Proofs.Correspondence
import AudioBringup.Proofs.Routine
/-!
# Proofs.Mail — what goes over either transport is on record

A word goes out when it is written to the immediate interface, or when the write pointer of the command ring is moved to the
slot that it was stored in.  So the letters can be read off the calls that were made (`History.letters`).  Whatever is
answered, an exchange adds its own letter and no other (`Transport.exchange_lettered`), which makes a correspondent of either
transport of any platform (`mail`).
-/
namespace AudioBringup

open Procedure

/-! ### Letters on record -/

namespace History

/-- The word that was stored last. -/
def stored : History → BitVec 32
  | [] => 0
  | ⟨.store32 _ word, _⟩ :: _ => word
  | _ :: h => stored h

/-- The words that went out, each with what the exchange came back with, if it did: what is written to the immediate
interface is one, and what was stored last when the write pointer of the command ring is moved. -/
def letters : History → List Letter
  | [] => []
  | ⟨.write _ o word, .ok ()⟩ :: h =>
    if o = Register.icoi then letters h ++ [⟨word, none⟩]
    else if o = Register.corbwp then letters h ++ [⟨stored h, none⟩]
    else letters h
  | ⟨.note (.answered _ word response), _⟩ :: h => (letters h).dropLast ++ [⟨word, some response⟩]
  | ⟨.note (.unanswered word), _⟩ :: h => (letters h).dropLast ++ [⟨word, some Response.timedOut⟩]
  | _ :: h => letters h

end History

namespace Call

/-- Puts no word to a transport. -/
def Wordless : Call → Prop
  | .write _ o _ => o ≠ Register.icoi ∧ o ≠ Register.corbwp
  | _ => True

/-- Leaves the letters as they are. -/
def Unlettered : Call → Prop
  | .note m => ¬m.EndsExchange
  | c => c.Wordless

end Call

namespace History

variable {h : History} {l : List Letter} {w : Width} {word response : BitVec 32}

theorem letters_unlettered : ∀ {c : Call} {a : c.Answer}, c.Unlettered → letters (⟨c, a⟩ :: h) = letters h
  | .write .., .ok _, hc => (if_neg hc.1).trans (if_neg hc.2)
  | .write .., .error _, _ => rfl
  | .note m, _, hc => by cases m <;> first | rfl | exact absurd trivial hc
  | .candidates, _, _ | .identify _, _, _ | .bindExclusive _, _, _ | .release, _, _ | .read .., _, _ | .allocate _, _, _
  | .free _, _, _ | .stall _, _, _ | .armTimer _, _, _ | .timerExpired, _, _ | .cancelTimer, _, _ | .load32 _, _, _
  | .load64 _, _, _ | .store32 .., _, _ | .store64 .., _, _ | .fill .., _, _ | .clear .., _, _ => rfl

theorem stable_letters : Stable Call.Unlettered fun h => h.letters = l := fun _ _ _ hc hl => (letters_unlettered hc).trans hl

theorem letters_icoi : letters (⟨.write w Register.icoi word, Except.ok ()⟩ :: h) = h.letters ++ [⟨word, none⟩] := if_pos rfl

theorem letters_corbwp {v : BitVec 32} :
    letters (⟨.write w Register.corbwp v, Except.ok ()⟩ :: h) = h.letters ++ [⟨h.stored, none⟩] :=
  (if_neg (by decide)).trans (if_pos rfl)

theorem letters_answered {kind : TransportKind} (hl : h.letters = l ++ [⟨word, none⟩]) :
    letters (⟨.note (.answered kind word response), ()⟩ :: h) = l ++ [⟨word, some response⟩] := by
  change h.letters.dropLast ++ [_] = _
  rw [hl, List.dropLast_concat]

theorem letters_unanswered (hl : h.letters = l ++ [⟨word, none⟩]) :
    letters (⟨.note (.unanswered word), ()⟩ :: h) = l ++ [⟨word, some Response.timedOut⟩] := by
  change h.letters.dropLast ++ [_] = _
  rw [hl, List.dropLast_concat]

end History

/-! ### One exchange -/

namespace Procedure

variable {σ α : Type} {n : Nat} {s : σ} {h : History} {l l' : List Letter} {word : BitVec 32}

/-- What there is to find after an exchange: a letter with its response, or a word that came to nothing. -/
def lettered (l : List Letter) (word : BitVec 32) : Outcome σ (BitVec 32) History where
  ok response _ h := h.letters = l ++ [⟨word, some response⟩]
  error _ _ h := Tried word l h.letters
  misused h := Tried word l h.letters
  stuck h := Tried word l h.letters

/-- A step within an exchange that leaves the letters as they are. -/
theorem lettered_after {x : Procedure σ α} {f : α → Procedure σ (BitVec 32)} (htried : Tried word l l')
    (hx : Confined Call.Unlettered (fun _ => ()) x)
    (hf : ∀ a s h, h.letters = l' → Ensures recording n (f a) s h (lettered l word)) (hl : h.letters = l') :
    Ensures recording n (x >>= f) s h (lettered l word) := by
  have hcut : ∀ h : History, h.letters = l' → Tried word l h.letters := fun _ hl => hl ▸ htried
  refine ensures_bind.2 ((hx.keeps History.stable_letters hl).mono ?_ ?_ hcut hcut)
  · exact fun a s h hh => hf a s h hh.2
  · exact fun _ _ h hh => hcut h hh.2

/-- A store is on record, unless the region does not admit it. -/
theorem ensures_store32_recording {r : Region} {offset : Nat} {Q : Outcome σ Unit History} (hmisused : Q.misused h)
    (hstored : ∀ host, Q.ok () s (⟨.store32 host word, ()⟩ :: h)) : Ensures recording n (r.store32 offset word) s h Q := by
  unfold Region.store32
  cases r.locate offset 4 with
  | ok host =>
    apply ensures_request.2
    rintro _ _ rfl
    exact hstored host
  | error m => exact ensures_misuse.2 hmisused

end Procedure

namespace ImmediateInterface

variable {σ : Type} {n : Nat} {t : σ} {h : History} {l : List Letter} {word : BitVec 32}

theorem unlettered_status {v : BitVec 16} :
    Confined Call.Unlettered (fun _ => ()) (write16 Register.icis v : Procedure σ Unit) :=
  confined_write ⟨by decide, by decide⟩

theorem exchange_lettered (timeout : BitVec 64) (hl : h.letters = l) :
    Ensures recording n (exchange timeout word) t h (lettered l word) := by
  refine lettered_after (.inl rfl) unlettered_status (fun _ t h hl => ?_) hl
  apply ensures_bind.2
  apply ensures_write.2
  rintro (e | _) _ rfl
  · exact .inl hl
  -- the word is out, and its letter has no response until the exchange is announced to have ended
  have hsent : History.letters (⟨.write .dword Register.icoi word, Except.ok ()⟩ :: h) = l ++ [⟨word, none⟩] :=
    hl ▸ History.letters_icoi
  refine lettered_after (.inr rfl) unlettered_status (fun _ t h hl => ?_) hsent
  refine lettered_after (.inr rfl) (confined_armTimer trivial) (fun _ t h hl => ?_) hl
  refine lettered_after (.inr rfl) (fun n => confined_awaitResponse trivial trivial n n) (fun answered t h hl => ?_) hl
  refine lettered_after (.inr rfl) (confined_cancelTimer trivial) (fun _ t h hl => ?_) hl
  cases answered with
  | true =>
    refine lettered_after (.inr rfl) (confined_read trivial) (fun response t h hl => ?_) hl
    refine lettered_after (.inr rfl) (confined_read16 trivial) (fun status t h hl => ?_) hl
    refine lettered_after (.inr rfl) unlettered_status (fun _ t h hl => ?_) hl
    apply ensures_bind.2
    apply ensures_note.2
    rintro _ rfl
    exact History.letters_answered hl
  | false =>
    apply ensures_bind.2
    apply ensures_note.2
    rintro _ rfl
    exact History.letters_unanswered hl

end ImmediateInterface

namespace CommandRings

variable {n : Nat} {r : CommandRings} {h : History} {l : List Letter} {word : BitVec 32}

theorem exchange_lettered (hl : h.letters = l) : Ensures recording n (exchange word) r h (lettered l word) := by
  apply ensures_modify_bind.2
  apply ensures_get_bind.2
  apply ensures_bind.2
  refine ensures_store32_recording (.inl hl) fun host => ?_
  apply ensures_bind.2
  apply ensures_write.2
  rintro (e | _) _ rfl
  · exact .inl hl
  -- the word is in the slot that the pointer was moved to
  have hsent : ∀ {v : BitVec 32}, History.letters (⟨.write .word Register.corbwp v, Except.ok ()⟩ ::
      ⟨.store32 host word, ()⟩ :: h) = l ++ [⟨word, none⟩] := hl ▸ History.letters_corbwp
  refine lettered_after (.inr rfl) (confined_waitUntil (confined_look16 trivial) fun _ => id) (fun _ r h hl => ?_) hsent
  refine lettered_after (.inr rfl) (confined_waitUntil (confined_look16 trivial) fun _ => id) (fun _ r h hl => ?_) hl
  apply ensures_modify_bind.2
  apply ensures_get_bind.2
  refine lettered_after (.inr rfl) (confined_load32 trivial) (fun response r h hl => ?_) hl
  refine lettered_after (.inr rfl) (confined_write ⟨by decide, by decide⟩) (fun _ r h hl => ?_) hl
  apply ensures_bind.2
  apply ensures_note.2
  rintro _ rfl
  exact History.letters_answered hl

end CommandRings

/-- **What an exchange sends and comes back with is on record**, over either transport and whatever is answered. -/
theorem Transport.exchange_lettered {n : Nat} {h : History} (word : BitVec 32) :
    ∀ t, Ensures recording n (exchange word) t h (lettered h.letters word)
  | .immediate timeout => ensures_get_bind.2 (ImmediateInterface.exchange_lettered timeout rfl)
  | .rings _ => ensures_get_bind.2 (ensures_on.2 (CommandRings.exchange_lettered rfl))

/-- Either transport of any platform. -/
def mail (n : Nat) : Correspondent recording n where
  Ready _ _ := True
  letters := History.letters
  exchange {t _} word _ := by
    apply (Transport.exchange_lettered word t).mono
    · exact fun _ _ _ hl => ⟨trivial, hl⟩
    · exact fun _ _ _ => id
    · exact fun _ => id
    · exact fun _ => id
  note := by
    rintro t h m _ hm - rfl
    exact ⟨trivial, History.letters_unlettered hm⟩

end AudioBringup
