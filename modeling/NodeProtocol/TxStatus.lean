namespace NodeProtocol

inductive TxStatus
  | pending
  | queued
  | broadcast
  | included
  | dropped
  | insufficientBalance
  | invalidNonce
  | invalidSignature
  | walletLocked
  | queueFull
  | queueRejected
  deriving DecidableEq, Repr

namespace TxStatus

def all : List TxStatus :=
  [pending, queued, broadcast, included, dropped, insufficientBalance, invalidNonce,
    invalidSignature, walletLocked, queueFull, queueRejected]

def code : TxStatus → Nat
  | pending => 0
  | queued => 1
  | broadcast => 2
  | included => 3
  | dropped => 4
  | insufficientBalance => 100
  | invalidNonce => 101
  | invalidSignature => 102
  | walletLocked => 103
  | queueFull => 104
  | queueRejected => 105

def ofCode? (code : Nat) : Option TxStatus :=
  all.find? (·.code = code)

def isTerminal : TxStatus → Bool
  | pending | queued | broadcast => false
  | _ => true

def isFailure (status : TxStatus) : Bool :=
  status.isTerminal && status != included

theorem ofCode?_eq_some_iff {code : Nat} {status : TxStatus} :
    ofCode? code = some status ↔ status.code = code := by
  constructor
  · intro h
    simpa using List.find?_some h
  · rintro rfl
    cases status <;> rfl

end TxStatus

def isTerminalCode (code : Nat) : Bool :=
  (TxStatus.ofCode? code).any TxStatus.isTerminal

end NodeProtocol
