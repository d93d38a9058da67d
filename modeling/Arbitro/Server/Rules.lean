import Arbitro.Engine.Subject

/-!
# Names, filters and the admission rules

What a name and a subject may consist of, and the rules a stream, a consumer and a
subscription must satisfy to be created. Every rule is a function of what is asked for and
of what is claimed already.
-/

namespace Arbitro

variable (filter : Bytes)

/-! ## Validation -/

/-- `MAX_NAME_LEN` and `MAX_SUBJECT_LEN`. -/
def maxNameLen : ℕ := 255

/-- `[a-zA-Z0-9_-]`. -/
def isNameByte (b : UInt8) : Bool :=
  (97 ≤ b && b ≤ 122) || (65 ≤ b && b ≤ 90) || (48 ≤ b && b ≤ 57) || b == 95 || b == 45

/-- `validate_name` returns `Ok`. -/
def validateName (name : Bytes) : Bool := !name.isEmpty && name.length ≤ maxNameLen && name.all isNameByte

/-- A token of a subject: not empty, and a wildcard byte stands alone. -/
def validateToken (token : Bytes) : Bool :=
  !token.isEmpty && !(token.contains starByte && 1 < token.length) && !(token.contains gtByte && 1 < token.length)

/-- `validate_subject` returns `Ok`. -/
def validateSubject (subject : Bytes) : Bool :=
  !subject.isEmpty && subject.length ≤ maxNameLen &&
    subject.all (fun b => isNameByte b || b == dotByte || b == starByte || b == gtByte) &&
    (subject.splitOn dotByte).all validateToken &&
    !(subject.contains gtByte && (subject.splitOn dotByte).getLastD [] != [gtByte])

/-- The loop of the protocol's `subjects_overlap`, on the tokens. -/
def Proto.subjectsOverlapFrom : List Bytes → List Bytes → Bool
  | [], [] => true
  | a :: as, b :: bs =>
    if a = [gtByte] ∨ b = [gtByte] then true
    else if a = [starByte] ∨ b = [starByte] ∨ a = b then subjectsOverlapFrom as bs
    else false
  | _, _ => false

/-- The protocol's `subjects_overlap`. -/
def Proto.subjectsOverlap (a b : Bytes) : Bool := subjectsOverlapFrom (a.splitOn dotByte) (b.splitOn dotByte)

/-! ## Rules -/

/-- The wire codes that the requests on streams and consumers are answered with. -/
inductive ErrorCode where
  | internalError
  | invalidLength
  | streamNotFound
  | streamAlreadyExists
  | streamFull
  | invalidStreamFilter
  | streamFilterConflict
  | consumerNotFound
  | consumerAlreadyExists
  | invalidConsumerConfig
  | invalidConsumerFilter
  | invalidSubscriptionFilter
  deriving DecidableEq, Repr

/-- A rejected creation. -/
inductive Violation where
  | streamFilterMissing
  | streamFilterGlobal
  | streamFilterDuplicate
  | streamFilterOverlap
  | streamFilterMismatch
  | consumerOutsideStream
  | consumerNestedUnderSibling
  | subscriptionOutsideConsumer
  | subscriptionIdMissing
  deriving DecidableEq, Repr

def Violation.wireCode : Violation → ErrorCode
  | .streamFilterMissing => .invalidStreamFilter
  | .streamFilterGlobal => .invalidStreamFilter
  | .streamFilterDuplicate => .streamFilterConflict
  | .streamFilterOverlap => .streamFilterConflict
  | .streamFilterMismatch => .streamFilterConflict
  | .consumerOutsideStream => .invalidConsumerFilter
  | .consumerNestedUnderSibling => .invalidConsumerFilter
  | .subscriptionOutsideConsumer => .invalidSubscriptionFilter
  | .subscriptionIdMissing => .invalidSubscriptionFilter

def isGlobal : Bool := filter.isEmpty || filter == [gtByte]

namespace StreamRules

def filterIsDeclared : Except Violation Unit :=
  if filter.isEmpty then .error .streamFilterMissing else .ok ()

def filterIsNotGlobal : Except Violation Unit :=
  if filter == [gtByte] then .error .streamFilterGlobal else .ok ()

def filterIsNotDuplicate (claimed : List Bytes) : Except Violation Unit :=
  if isGlobal filter then .ok ()
  else if claimed.contains filter then .error .streamFilterDuplicate else .ok ()

def filterDoesNotOverlap (claimed : List Bytes) : Except Violation Unit :=
  if isGlobal filter then .ok ()
  else if claimed.any (fun other => !isGlobal other && subjectsOverlap other filter) then .error .streamFilterOverlap
  else .ok ()

/-- `recreate_keeps_its_filter`, the one rule of `on_recreate`. -/
def onRecreate (filter existing : Bytes) : Except Violation Unit :=
  if filter.isEmpty || filter == existing then .ok () else .error .streamFilterMismatch

def onCreate (claimed : List Bytes) : Except Violation Unit := do
  filterIsDeclared filter
  filterIsNotGlobal filter
  filterIsNotDuplicate filter claimed
  filterDoesNotOverlap filter claimed

end StreamRules

namespace ConsumerRules

def inheritsTheStreamFilter (filter streamFilter : Bytes) : Bytes := if filter.isEmpty then streamFilter else filter

def staysInsideItsStream (filter streamFilter : Bytes) : Except Violation Unit :=
  if isGlobal streamFilter || filter.isEmpty then .ok ()
  else if !subjectCovers streamFilter filter then .error .consumerOutsideStream else .ok ()

/-- Is the filter of another consumer in the way? -/
def nestedWith (filter other : Bytes) : Bool :=
  !(isGlobal other || other == filter) && (subjectCovers other filter || subjectCovers filter other)

def notNestedUnderASibling (siblings : List Bytes) : Except Violation Unit :=
  if isGlobal filter then .ok ()
  else if siblings.any (nestedWith filter) then .error .consumerNestedUnderSibling else .ok ()

/-- `on_create`: the filter to store. -/
def onCreate (filter streamFilter : Bytes) (siblings : List Bytes) : Except Violation Bytes := do
  staysInsideItsStream filter streamFilter
  notNestedUnderASibling (inheritsTheStreamFilter filter streamFilter) siblings
  return inheritsTheStreamFilter filter streamFilter

end ConsumerRules

namespace SubscriptionRules

def inheritsTheConsumerFilter (filters : List Bytes) (consumerFilter : Bytes) : List Bytes :=
  if filters.isEmpty && !consumerFilter.isEmpty then [consumerFilter] else filters

def staysInsideItsConsumer (filters : List Bytes) (consumerFilter : Bytes) : Except Violation Unit :=
  if isGlobal consumerFilter then .ok ()
  else if filters.any (fun f => !subjectCovers consumerFilter f) then .error .subscriptionOutsideConsumer else .ok ()

def hasItsOwnId (subscriptionId : ℕ) : Except Violation Unit :=
  if subscriptionId = 0 then .error .subscriptionIdMissing else .ok ()

/-- `on_create`: the filters to store. -/
def onCreate (subscriptionId : ℕ) (filters : List Bytes) (consumerFilter : Bytes) : Except Violation (List Bytes) := do
  hasItsOwnId subscriptionId
  staysInsideItsConsumer filters consumerFilter
  return inheritsTheConsumerFilter filters consumerFilter

end SubscriptionRules

end Arbitro
