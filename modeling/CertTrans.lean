import CertTrans.LeftBalanced.Basic
import CertTrans.LeftBalanced.Root
import CertTrans.LeftBalanced.Proofs
import CertTrans.LeftBalanced.Peaks
import CertTrans.Merkletree.Basic
import CertTrans.Merkletree.MerkleTree
import CertTrans.Merkletree.MerkleTreeLevels
import CertTrans.Merkletree.MerkleTreeQueries
import CertTrans.Merkletree.MerkleVerifier
import CertTrans.Merkletree.CompactMerkleTree
import CertTrans.Merkletree.SparseMerkleTree
import CertTrans.Codec.Bytes
import CertTrans.Codec.GoBytes
import CertTrans.Proto.Ct
import CertTrans.Proto.Serializer
import CertTrans.Proto.SerializerRoundTrip
import CertTrans.Proto.CertSerializer
import CertTrans.Proto.LeafRoundTrip
import CertTrans.Proto.ListSerializer
import CertTrans.Proto.ListRoundTrip
import CertTrans.Proto.SignatureInput
import CertTrans.Proto.SignatureInputProofs
import CertTrans.Keyed.Basic
import CertTrans.Keyed.OrderedMap
import CertTrans.Keyed.Layout
import CertTrans.Numeric.Binary64
import CertTrans.Log.Database
import CertTrans.Log.DatabaseIndex
import CertTrans.Log.DatabaseQueries
import CertTrans.Log.LevelDBKeys
import CertTrans.Log.EtcdConsistentStore
import CertTrans.Log.TreeSigner
import CertTrans.Log.SequenceMapping
import CertTrans.Log.TreeSignerProofs
import CertTrans.Log.UpdateTreeProofs
import CertTrans.Log.ClusterStateController
import CertTrans.Log.ServingSth
import CertTrans.Log.LogLookup
import CertTrans.Server.Handler
import CertTrans.Server.HandlerProofs
import CertTrans.Server.GetEntriesProofs
import CertTrans.Python.Merkle
import CertTrans.Python.MerkleProofs
import CertTrans.Python.MerkleVerifierProofs
import CertTrans.Python.Asn1
import CertTrans.Python.Asn1Proofs
import CertTrans.Python.TlsMessage
import CertTrans.Python.TlsMessageProofs
import CertTrans.Python.Monitor
import CertTrans.Python.MonitorProofs
import CertTrans.Go.Serialization
import CertTrans.Go.SerializationProofs
import CertTrans.Log.LoggedEntry
import CertTrans.Fetcher.Replication
import CertTrans.Fetcher.ReplicationProofs
import CertTrans.Fetcher.FetchState
import CertTrans.Fetcher.WalkEntriesProofs
import CertTrans.Fetcher.FetchStateProofs
import CertTrans.Fetcher.FetchCoverage
