import Arbitro.Engine.Basic

/-!
# The handlers of a service

`Service::handle`, and how the dispatch loop picks the handler of a call. A handler goes by the
number of its registration.
-/

namespace Arbitro

/-- `_svc.` -/
def svcPrefix : Bytes := [95, 115, 118, 99, 46]

/-- `.m.` -/
def methodInfix : Bytes := [46, 109, 46]

/-- The subject that a call is published to, and that a handler is filed under. -/
def methodSubject (name method : Bytes) : Bytes := svcPrefix ++ name ++ methodInfix ++ method

structure Service where
  name : Bytes
  /-- What each handler matches. -/
  handlers : List Bytes := []
  /-- The handlers whose token is cancelled. -/
  cancelled : List ℕ := []

/-- `handle`; `ServiceHandle::stop`, or a drop of the handle. -/
inductive ServiceAction where
  | handle (method : Bytes)
  | stop (handler : ℕ)

namespace Service

def step (s : Service) : ServiceAction → Service
  | .handle method => { s with handlers := s.handlers ++ [methodSubject s.name method] }
  | .stop handler => { s with cancelled := handler :: s.cancelled }

/-- The first handler whose prefix the subject starts with; without one the call is nacked. The
loop does not look at the tokens. -/
def dispatch (s : Service) (subject : Bytes) : Option ℕ := s.handlers.findIdx? (·.isPrefixOf subject)

end Service

end Arbitro
