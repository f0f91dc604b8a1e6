import DialogueScript.Proofs.SpanOrder

namespace DialogueScript

variable {marks : Position → Prop} {f : Finding}

namespace Finding

end Finding

namespace Program

variable {program : Program}

end Program

end DialogueScript
