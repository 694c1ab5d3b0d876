import AccessControl.Verifier.Basic

/-! Sequences of verifier operations at given times, with the answer of each. -/

namespace AccessControl.Verifier

/-- What may be asked of a verifier. -/
inductive Op
  | verify (secret stored : Bytes)
  | create (secret : Bytes)
  | cacheSize
  | clearCache
  | shutdown
  /-- A sweep in the background. -/
  | sweep
  deriving DecidableEq

/-- What a verifier answers. -/
inductive Answer
  | verdict (fits : Bool)
  | token (created : Except Error Token)
  | count (remembered : Nat)
  | done

/-- An operation with the times at which it begins and ends. -/
structure Event where
  asked : Nat
  answered : Nat
  op : Op

variable {σ : Type}

/-- One operation. -/
def step (v : Verifier σ) (e : Event) : Answer × Verifier σ :=
  match e.op with
  | .verify secret stored =>
    let (fits, v) := v.verify e.asked e.answered secret stored
    (.verdict fits, v)
  | .create secret =>
    let (created, v) := v.createCredential secret
    (.token created, v)
  | .cacheSize =>
    let (remembered, v) := v.cacheSize e.asked
    (.count remembered, v)
  | .clearCache => (.done, v.clearCache)
  | .shutdown => (.done, v.shutdown)
  | .sweep => (.done, v.sweep e.asked)

/-- Operations one after the other. -/
def run (v : Verifier σ) : List Event → List Answer × Verifier σ
  | [] => ([], v)
  | e :: rest =>
    let (answer, v) := v.step e
    let (answers, v) := v.run rest
    (answer :: answers, v)

end AccessControl.Verifier
