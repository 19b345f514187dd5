import Sangtachi.Core.RecencyList
import Sangtachi.Tunnel.Packet

/-! # Session epochs and retired values

The epoch of a session and the nonce of an attempt are drawn from a random source. Epochs of the
peer that are over are kept in one bounded list, nonces of ended attempts in another, unbounded one.
-/
namespace Sangtachi.Peer

open Sangtachi.BigEndian Sangtachi.Packet Sangtachi.Recency

def maxRetiredEpochs : ℕ := 16
def retiredEpochTtlMs : ℕ := 120000
def retiredNonceTtlMs : ℕ := 120000

/-! ## Retired values -/

structure RetiredEpochs where
  entries : List (Stamped U32) := []
  deriving DecidableEq, Repr

/-- What expired goes first, then the same value, then the oldest while the list is full. -/
def RetiredEpochs.add (r : RetiredEpochs) (epoch : U32) (now : ℕ) : RetiredEpochs :=
  ⟨Recency.add maxRetiredEpochs retiredEpochTtlMs r.entries epoch now⟩

def RetiredEpochs.contains (r : RetiredEpochs) (epoch : U32) (now : ℕ) : Bool :=
  Recency.contains retiredEpochTtlMs r.entries epoch now

def RetiredEpochs.expire (r : RetiredEpochs) (now : ℕ) : RetiredEpochs :=
  ⟨Recency.expire retiredEpochTtlMs r.entries now⟩

structure RetiredNonces where
  entries : List (Stamped Nonce) := []
  deriving DecidableEq

/-- No limit on the number, and the same value may stand twice. -/
def RetiredNonces.add (r : RetiredNonces) (nonce : Nonce) (now : ℕ) : RetiredNonces :=
  ⟨Recency.expire retiredNonceTtlMs r.entries now ++ [⟨nonce, now⟩]⟩

def RetiredNonces.contains (r : RetiredNonces) (nonce : Nonce) (now : ℕ) : Bool :=
  Recency.contains retiredNonceTtlMs r.entries nonce now

/-! ## Drawing -/

/-- The first value that is not 0. `draws` are the values the source gives before it fails. -/
def generateSessionEpoch (draws : List U32) : Option U32 := draws.find? (· ≠ 0)

def generateAttemptNonce (retired : RetiredNonces) (now : ℕ) (draws : List Nonce) : Option Nonce :=
  draws.find? (fun n => !retired.contains n now)

/-! ## Every sequence of calls -/

def RetiredEpochs.History (h : List (Call U32)) (t : ℕ) (r : RetiredEpochs) : Prop :=
  Recency.History maxRetiredEpochs retiredEpochTtlMs h t r.entries

theorem RetiredEpochs.History.add {h : List (Call U32)} {t now : ℕ} {r : RetiredEpochs}
    (hh : RetiredEpochs.History h t r) (ht : t ≤ now) (epoch : U32) :
    RetiredEpochs.History (h ++ [⟨now, .add epoch⟩]) now (r.add epoch now) :=
  Recency.History.call (.add epoch) now hh ht

/-- The latest addition of the epoch is young enough, and few enough others were added since. -/
def StillRetired (h : List (Call U32)) (epoch : U32) (t : ℕ) : Prop :=
  ∃ a others, LatestAdded h epoch a others ∧ t < a + retiredEpochTtlMs ∧
    others.card < maxRetiredEpochs

theorem RetiredEpochs.History.contains_iff {h : List (Call U32)} {t now : ℕ} {r : RetiredEpochs}
    (hh : RetiredEpochs.History h t r) (ht : t ≤ now) (epoch : U32) :
    r.contains epoch now = true ↔ StillRetired h epoch now :=
  Recency.contains_iff (by decide) hh ht epoch

theorem RetiredEpochs.History.distinct {h : List (Call U32)} {t : ℕ} {r : RetiredEpochs}
    (hh : RetiredEpochs.History h t r) :
    (r.entries.map Stamped.key).Nodup ∧ r.entries.length ≤ maxRetiredEpochs :=
  Recency.history_distinct (by decide) hh

end Sangtachi.Peer
