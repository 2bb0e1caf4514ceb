import HookLint.Proofs.Flow.Sources

namespace HookLint.Flow

open List Grammar

section
variable {marks : Marks} {role : Role} {id : Nat} {fields : Fields} {slots : List Slot}

end

end HookLint.Flow
