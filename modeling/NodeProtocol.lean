import NodeProtocol.Client.Step
import NodeProtocol.Proofs.Abi.Canonical
import NodeProtocol.Proofs.Abi.Literal
import NodeProtocol.Proofs.Abi.Machine
import NodeProtocol.Proofs.Abi.NormalForm
import NodeProtocol.Proofs.Abi.Regions
import NodeProtocol.Proofs.Abi.RowMajor
import NodeProtocol.Proofs.Abi.Sharing
import NodeProtocol.Proofs.Abi.Shortfall
import NodeProtocol.Proofs.Abi.SignatureText
import NodeProtocol.Proofs.BigEndian
import NodeProtocol.Proofs.Cache.Freshness
import NodeProtocol.Proofs.Cache.Lag
import NodeProtocol.Proofs.Cache.Refinement
import NodeProtocol.Proofs.Client.Agreement
import NodeProtocol.Proofs.Client.Closing
import NodeProtocol.Proofs.Client.Deadlines
import NodeProtocol.Proofs.Client.Polling
import NodeProtocol.Proofs.Client.Refusals
import NodeProtocol.Proofs.Client.Verdict
import NodeProtocol.Proofs.Frame
import NodeProtocol.Proofs.Keccak.Bijective
import NodeProtocol.Proofs.Keccak.Blockwise
